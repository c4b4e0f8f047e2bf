import Linktools.Library.Machine
import Linktools.State.StoreSoundness

namespace Linktools.State

open Library

/-! Mutations of a group of in-memory stores: one transaction for every member, and the overlays
of all members or of none. -/

/-- What a callback may do with the transactions of a group: call their operations, look at
what they show, return or raise. -/
inductive Callback (ι : Type)
  | done
  | raise (error : Failure)
  | read (store : ι) (next : MemoryTransaction → Callback ι)
  | call (store : ι) (operation : TransactionCall)
      (next : Except Failure TransactionAnswer → Callback ι)

/-- One operation that a callback has called, on the transaction as it was. -/
structure Performed (ι : Type) where
  store : ι
  operation : TransactionCall
  before : MemoryTransaction
  answer : Except Failure TransactionAnswer
  after : MemoryTransaction

structure CallbackRun (ι : Type) where
  outcome : Except Failure Unit
  transactions : ι → MemoryTransaction
  performed : List (Performed ι)

/-- The lifecycle flags of a group and its stores at the time of a call. -/
structure GroupLifecycle (ι : Type) where
  readOnly : Bool := false
  closing : Bool := false
  archive : Option ι := none
  initialized : ι → Bool := fun _ => true
  closed : ι → Bool := fun _ => false

abbrev MemoryGroup (ι : Type) := ι → MemoryTables

variable {ι : Type} [DecidableEq ι]

def notEnlisted : Failure :=
  .runtimeError "store was not enlisted in the StateStorageGroup transaction"

namespace Callback

def run (members : List ι) : Callback ι → (ι → MemoryTransaction) → CallbackRun ι
  | .done, transactions => ⟨.ok (), transactions, []⟩
  | .raise error, transactions => ⟨.error error, transactions, []⟩
  | .read store next, transactions =>
    if store ∈ members then (next (transactions store)).run members transactions
    else ⟨.error notEnlisted, transactions, []⟩
  | .call store operation next, transactions =>
    if store ∈ members then
      let before := transactions store
      let (answer, after) := Action.runOn operation.perform before
      let rest := (next answer).run members (Function.update transactions store after)
      { rest with performed := ⟨store, operation, before, answer, after⟩ :: rest.performed }
    else ⟨.error notEnlisted, transactions, []⟩

end Callback

namespace GroupLifecycle

variable (lifecycle : GroupLifecycle ι)

/-- The stores that a mutation enlists: those it names, and the archive. -/
def members (stores : List ι) : List ι := (stores ++ lifecycle.archive.toList).dedup

def ensureMember (store : ι) : Except Failure Unit := do
  refuse (lifecycle.closing = true) (.raised (.ai .storageClosed))
  refuse (lifecycle.closed store = true) (.raised (.ai .storageClosed))
  refuse (lifecycle.initialized store = false) (.raised (.ai .storageDependencyNotReady))

def ensureMutable (stores : List ι) : Except Failure Unit := do
  refuse (lifecycle.readOnly = true) (.raised (.ai .storageReadOnly))
  refuse (stores = []) (.valueError "StateStorageGroup mutation requires a store")
  (lifecycle.members stores).forM lifecycle.ensureMember

end GroupLifecycle

/-- `_apply_transaction`. -/
def MemoryTables.applyTransaction (tables : MemoryTables) (tx : MemoryTransaction) :
    MemoryTables where
  records := tx.records.applyTo tables.records
  aliases := tx.aliases.applyTo tables.aliases
  sequences := tx.sequences.applyTo tables.sequences
  facts := tx.facts.applyTo tables.facts
  operations := tx.operations.applyTo tables.operations
  operationStreams := tables.operationStreams.patch tx.operationStreamChanges

def raiseMutationError (tx : MemoryTransaction) : Except Failure Unit :=
  match tx.mutationError with
  | some error => .error error
  | none => .ok ()

namespace MemoryGroup

variable (group : MemoryGroup ι)

def transactions (store : ι) : MemoryTransaction := .begin (group store)

def commit (members : List ι) (transactions : ι → MemoryTransaction) : MemoryGroup ι :=
  fun store =>
    if store ∈ members then (group store).applyTransaction (transactions store) else group store

/-- What the callback of a mutation does, from transactions that were just begun. -/
def callbackRun (lifecycle : GroupLifecycle ι) (stores : List ι) (callback : Callback ι) :
    CallbackRun ι :=
  callback.run (lifecycle.members stores) (transactions group)

def finish (members : List ι) (run : CallbackRun ι) : Except Failure (MemoryGroup ι) := do
  run.outcome
  members.forM fun store => raiseMutationError (run.transactions store)
  return commit group members run.transactions

def tryMutate (lifecycle : GroupLifecycle ι) (stores : List ι) (callback : Callback ι) :
    Except Failure (MemoryGroup ι) := do
  lifecycle.ensureMutable stores
  finish group (lifecycle.members stores) (callbackRun group lifecycle stores callback)

def mutate (lifecycle : GroupLifecycle ι) (stores : List ι) (callback : Callback ι) :
    Except Failure Unit × MemoryGroup ι :=
  match tryMutate group lifecycle stores callback with
  | .ok committed => (.ok (), committed)
  | .error error => (.error error, group)

end MemoryGroup

structure Mutation (ι : Type) where
  lifecycle : GroupLifecycle ι
  stores : List ι
  callback : Callback ι

def mutationMachine (ι : Type) [DecidableEq ι] : Machine (MemoryGroup ι) (Mutation ι) where
  initial group := ∀ store, group store = {}
  step before mutation after :=
    after = (before.mutate mutation.lifecycle mutation.stores mutation.callback).2

open Linktools.Core List

def MemoryTransaction.tables (tx : MemoryTransaction) : MemoryTables where
  records := tx.records.base
  aliases := tx.aliases.base
  sequences := tx.sequences.base
  facts := tx.facts.base
  operations := tx.operations.base
  operationStreams := tx.operationStreams

namespace MemoryTransaction

variable {tx : MemoryTransaction}

@[simp] theorem tables_eraseOperations :
    (tx.eraseOperations values).tables = tx.tables := by
  induction values generalizing tx with
  | nil => rfl
  | cons head tail ih => exact ih

variable {after : MemoryTransaction}

theorem tables_change (changed : Change tx after) : after.tables = tx.tables := by
  cases changed with
  | setRecord | setAlias | setSequence | setFact | insertOperation | setOperation => rfl
  | eraseSequences => simp only [tables, eraseSequences, Overlay.base_eraseAll]
  | eraseFactsOf => simp only [tables, eraseFactsOf, Overlay.base_eraseAll]
  | deleteRecordOwners => simp only [tables, deleteRecordOwners, Overlay.base_eraseAll]
  | eraseOperations => exact tables_eraseOperations

theorem mutationError_change (changed : Change tx after) :
    after.mutationError = tx.mutationError := by
  cases changed with
  | eraseOperations =>
    rename_i values stored
    clear stored
    induction values generalizing tx with
    | nil => rfl
    | cons head tail ih => exact ih
  | _ => rfl

end MemoryTransaction

theorem MemoryTables.view_applyTransaction {tables : MemoryTables}
    (atTables : tx.tables = tables) :
    (tables.applyTransaction tx).view = tx.view := by
  subst atTables
  simp only [MemoryTables.view, MemoryTransaction.view, MemoryTables.applyTransaction,
    MemoryTransaction.tables, StoreView.mk.injEq]
  refine ⟨?_, ?_, ?_, ?_, ?_⟩
  · exact funext fun key => Overlay.lookup_applyTo
  · exact funext fun key => Overlay.lookup_applyTo
  · exact funext fun key => Overlay.lookup_applyTo
  · exact funext fun key => Overlay.lookup_applyTo
  · funext position
    rw [Table.lookup_patch, MemoryTransaction.operationKey]
    cases tx.operationStreamChanges.lookup position with
    | none => rfl
    | some change => rfl

variable {members : List ι} {transactions : ι → MemoryTransaction}

namespace Callback

theorem run_keeps (holds : ι → MemoryTransaction → Prop)
    (kept : ∀ store tx call, holds store tx →
      holds store (Action.runOn (TransactionCall.perform call) tx).2)
    (callback : Callback ι) (initially : ∀ store, holds store (transactions store)) (store : ι) :
    holds store ((callback.run members transactions).transactions store) := by
  induction callback generalizing transactions with
  | done => exact initially store
  | raise error => exact initially store
  | read member next ih =>
    unfold run
    split
    case isTrue => exact ih _ initially
    case isFalse => exact initially store
  | call member operation next ih =>
    unfold run
    split
    case isTrue =>
      refine ih _ fun other => ?_
      by_cases same : other = member
      case pos =>
        subst same
        rw [Function.update_self]
        exact kept other _ operation (initially other)
      case neg =>
        rw [Function.update_of_ne same]
        exact initially other
    case isFalse => exact initially store

variable {performed : Performed ι}

theorem run_of_performed (callback : Callback ι)
    (member : performed ∈ (callback.run members transactions).performed) :
    performed.store ∈ members ∧ Action.runOn performed.operation.perform performed.before =
        (performed.answer, performed.after) := by
  induction callback generalizing transactions with
  | done => cases member
  | raise error => cases member
  | read store next ih =>
    unfold run at member
    split at member
    case isTrue => exact ih _ member
    case isFalse => cases member
  | call store operation next ih =>
    unfold run at member
    split at member
    case isTrue enlisted =>
      cases mem_cons.mp member with
      | inl same =>
        subst same
        exact ⟨enlisted, rfl⟩
      | inr later => exact ih _ later
    case isFalse => cases member

theorem noted_stays (call : TransactionCall) (noted : tx.mutationError ≠ none) :
    (Action.runOn call.perform tx).2.mutationError ≠ none := by
  refine MemoryTransaction.perform_keeps (fun tx => tx.mutationError ≠ none)
    ?_ ?_ noted
  · intro before after changed holds
    rw [MemoryTransaction.mutationError_change changed]
    exact holds
  · intro before error _ none
    cases none

theorem noted_of_performed (callback : Callback ι)
    (member : performed ∈ (callback.run members transactions).performed)
    (noted : performed.after.mutationError ≠ none) :
    ((callback.run members transactions).transactions performed.store).mutationError ≠ none := by
  induction callback generalizing transactions with
  | done => cases member
  | raise error => cases member
  | read store next ih =>
    unfold run at member ⊢
    split at member
    case isTrue enlisted =>
      rw [if_pos enlisted]
      exact ih _ member
    case isFalse => cases member
  | call store operation next ih =>
    unfold run at member ⊢
    split at member
    case isTrue enlisted =>
      rw [if_pos enlisted]
      cases mem_cons.mp member with
      | inl same =>
        subst same
        refine run_keeps (fun other tx =>
          other = store → tx.mutationError ≠ none) ?_ _ ?_ store rfl
        · exact fun other tx call holds same => noted_stays call (holds same)
        · intro other same
          rw [same, Function.update_self]
          exact noted
      | inr later => exact ih _ later
    case isFalse => cases member

end Callback

/-- A replacement of several records that an error of its checks has stopped. -/
def Performed.FailedBatch (performed : Performed ι) : Prop :=
  ∃ replacements error, performed.operation = .replaceRecords replacements ∧
    1 < replacements.length ∧ performed.answer = .error error

def Performed.ConflictedBatch (performed : Performed ι) : Prop :=
  ∃ replacements details, performed.operation = .replaceRecords replacements ∧
    1 < replacements.length ∧ performed.answer = .error (.raised (.ai .storageConflict details))

def Performed.FailedSingle (performed : Performed ι) : Prop :=
  (∃ replacement error, performed.operation = .replaceRecords [replacement] ∧
    performed.answer = .error error) ∨
  ∃ record expected, performed.operation = .replaceRecord record expected ∧
    performed.answer = .ok (.flag false)

variable {performed : Performed ι}

omit [DecidableEq ι] in
theorem noted_of_conflictedBatch (ran : Action.runOn performed.operation.perform performed.before =
      (performed.answer, performed.after)) (conflicted : performed.ConflictedBatch) :
    performed.after.mutationError ≠ none := by
  obtain ⟨replacements, details, called, several, answered⟩ := conflicted
  rw [called, answered] at ran
  rw [MemoryTransaction.noted_of_conflict several ran]
  intro none
  cases none

omit [DecidableEq ι] in
theorem unchanged_of_failedSingle (ran : Action.runOn performed.operation.perform performed.before =
      (performed.answer, performed.after)) (failed : performed.FailedSingle) :
    performed.after = performed.before := by
  rcases failed with ⟨replacement, error, called, answered⟩ | ⟨record, expected, called, answered⟩
  · rw [called, answered] at ran
    exact MemoryTransaction.unchanged_of_single ran
  · rw [called, answered] at ran
    exact MemoryTransaction.unchanged_of_false ran

theorem Callback.quiet_of_run (callback : Callback ι)
    (passed : ∀ performed ∈ (callback.run members transactions).performed, ¬performed.FailedBatch)
    (quiet : ∀ store, (transactions store).mutationError = none) (store : ι) :
    ((callback.run members transactions).transactions store).mutationError = none := by
  induction callback generalizing transactions with
  | done => exact quiet store
  | raise error => exact quiet store
  | read member next ih =>
    unfold run at passed ⊢
    split
    case isTrue enlisted =>
      rw [if_pos enlisted] at passed
      exact ih _ passed quiet
    case isFalse => exact quiet store
  | call member operation next ih =>
    unfold run at passed ⊢
    split
    case isTrue enlisted =>
      rw [if_pos enlisted] at passed
      refine ih _ (fun later performed => passed later (mem_cons_of_mem _ performed)) ?_
      intro other
      by_cases same : other = member
      case pos =>
        subst same
        rw [Function.update_self]
        cases MemoryTransaction.perform_cases (transactions other) operation with
        | inl moves =>
          refine moves.keeps (fun tx => tx.mutationError = none)
            (fun _ _ changed none => ?_) (quiet other)
          rw [MemoryTransaction.mutationError_change changed]
          exact none
        | inr notes =>
          obtain ⟨replacements, error, called, several, ran⟩ := notes
          refine absurd ⟨replacements, error, called, several, ?_⟩ (passed _ mem_cons_self)
          exact congrArg Prod.fst ran
      case neg =>
        rw [Function.update_of_ne same]
        exact quiet other
    case isFalse => exact quiet store

namespace MemoryGroup

variable {group : MemoryGroup ι} {lifecycle : GroupLifecycle ι} {stores : List ι}
  {callback : Callback ι}

theorem tables_callbackRun (store : ι) :
    ((callbackRun group lifecycle stores callback).transactions store).tables = group store := by
  refine Callback.run_keeps (fun store tx => tx.tables = group store) ?_
    callback (fun _ => rfl) store
  intro store tx call atTables
  refine MemoryTransaction.perform_keeps (fun tx => tx.tables = group store)
    ?_ (fun _ _ atTables => atTables) atTables
  intro before after changed atTables
  rw [MemoryTransaction.tables_change changed, atTables]

theorem sound_callbackRun (sound : ∀ store, (group store).view.Sound) (store : ι) :
    ((callbackRun group lifecycle stores callback).transactions store).Sound :=
  Callback.run_keeps (fun _ tx => tx.Sound)
    (fun _ _ call sound => sound.perform call) callback
    (fun store => MemoryTransaction.sound_begin (sound store)) store

theorem view_commit (store : ι) :
    (group.commit members (callbackRun group lifecycle stores callback).transactions store).view =
      if store ∈ members then
        ((callbackRun group lifecycle stores callback).transactions store).view
      else (group store).view := by
  unfold commit
  split
  case isTrue => exact MemoryTables.view_applyTransaction (tables_callbackRun store)
  case isFalse => rfl

theorem mutate_cases (group : MemoryGroup ι) (lifecycle : GroupLifecycle ι) (stores : List ι)
    (callback : Callback ι) :
    (group.mutate lifecycle stores callback = (.ok (), group.commit (lifecycle.members stores)
        (group.callbackRun lifecycle stores callback).transactions) ∧
      (group.callbackRun lifecycle stores callback).outcome = .ok () ∧
      ∀ store ∈ lifecycle.members stores, ((group.callbackRun lifecycle stores
        callback).transactions store).mutationError = none) ∨
    ∃ error, group.mutate lifecycle stores callback = (.error error, group) := by
  unfold mutate
  cases attempt : group.tryMutate lifecycle stores callback with
  | error error => exact .inr ⟨error, rfl⟩
  | ok committed =>
    rw [tryMutate, bind_eq_ok] at attempt
    obtain ⟨_, _, finished⟩ := attempt
    rw [finish, bind_eq_ok] at finished
    obtain ⟨_, returned, rest⟩ := finished
    rw [bind_eq_ok] at rest
    obtain ⟨_, quiet, rest⟩ := rest
    rw [pure_eq_ok] at rest
    subst rest
    refine .inl ⟨rfl, returned, fun store member => ?_⟩
    have passed := forM_eq_ok.mp quiet store member
    unfold raiseMutationError at passed
    split at passed
    case h_1 => cases passed
    case h_2 none => exact none

theorem mutate_of_ok (admitted : lifecycle.ensureMutable stores = .ok ())
    (returned : (group.callbackRun lifecycle stores callback).outcome = .ok ())
    (quiet : ∀ store ∈ lifecycle.members stores, ((group.callbackRun lifecycle stores
      callback).transactions store).mutationError = none) :
    group.mutate lifecycle stores callback = (.ok (), group.commit (lifecycle.members stores)
      (group.callbackRun lifecycle stores callback).transactions) := by
  have passed : (lifecycle.members stores).forM (fun store => raiseMutationError
      ((group.callbackRun lifecycle stores callback).transactions store)) = .ok ⟨⟩ := by
    refine forM_eq_ok.mpr fun store member => ?_
    rw [raiseMutationError, quiet store member]
  rw [mutate, tryMutate, admitted, ok_bind, finish, returned, ok_bind, passed, ok_bind]
  rfl

end MemoryGroup

theorem sound_of_reachable (reachable : (mutationMachine ι).Reachable group) (store : ι) :
    (group store).view.Sound := by
  revert store
  apply reachable.invariant
  · intro group empty store
    rw [empty store]
    exact ⟨nofun, nofun, nofun, nofun, nofun, by
      intro position key
      exact iff_of_false nofun (by rintro ⟨_, ⟨⟩, _⟩)⟩
  · intro before mutation after _ sound step store
    subst step
    rcases MemoryGroup.mutate_cases before mutation.lifecycle mutation.stores mutation.callback
      with ⟨committed, _, _⟩ | ⟨error, kept⟩
    · rw [committed, MemoryGroup.view_commit]
      split
      case isTrue => exact (MemoryGroup.sound_callbackRun sound store).view
      case isFalse => exact sound store
    · rw [kept]
      exact sound store

/-- Every mutation, from any sequence of mutations before it, leaves all tables sound.  A
callback that raises, or that met a conflict of several records and went on, changes nothing;
the conflict of one record changes nothing itself and is left to the callback, and what a
callback then does is committed as it was shown. -/
theorem mutations_are_sound_and_atomic :
    (∀ group : MemoryGroup ι, (mutationMachine ι).Reachable group →
      ∀ store, (group store).view.Sound) ∧
    ∀ (group : MemoryGroup ι) (lifecycle : GroupLifecycle ι) (stores : List ι)
      (callback : Callback ι) (run : CallbackRun ι),
      run = group.callbackRun lifecycle stores callback → ((∃ error, run.outcome = .error error) ∨
          (∃ performed ∈ run.performed, performed.ConflictedBatch) →
        ∃ error, group.mutate lifecycle stores callback = (.error error, group)) ∧
      (∀ performed ∈ run.performed, performed.FailedSingle → performed.after = performed.before) ∧
      (lifecycle.ensureMutable stores = .ok () → run.outcome = .ok () →
        (∀ performed ∈ run.performed, ¬performed.FailedBatch) →
        ∃ committed, group.mutate lifecycle stores callback = (.ok (), committed) ∧
          ∀ store, (committed store).view =
            if store ∈ lifecycle.members stores then (run.transactions store).view
            else (group store).view) := by
  refine ⟨fun group reachable => sound_of_reachable reachable, ?_⟩
  intro group lifecycle stores callback run same
  subst same
  refine ⟨fun fails => ?_, fun performed member failed => ?_, fun admitted returned passed => ?_⟩
  · rcases MemoryGroup.mutate_cases group lifecycle stores callback
      with ⟨committed, returned, quiet⟩ | kept
    · cases fails with
      | inl raises =>
        obtain ⟨error, raised⟩ := raises
        cases returned.symm.trans raised
      | inr conflicts =>
        obtain ⟨performed, member, conflicted⟩ := conflicts
        obtain ⟨enlisted, ran⟩ := callback.run_of_performed member
        have noted := callback.noted_of_performed member (noted_of_conflictedBatch ran conflicted)
        exact absurd (quiet performed.store enlisted) noted
    · exact kept
  · exact unchanged_of_failedSingle (callback.run_of_performed member).2 failed
  · have quiet := callback.quiet_of_run passed fun _ => rfl
    refine ⟨_, MemoryGroup.mutate_of_ok admitted returned fun store _ => quiet store, ?_⟩
    exact MemoryGroup.view_commit

theorem sampleRecord_identified :
    checkRecordIdentity "aaaaaaaaaaaaaaaaaaaaaaaaaaaaaaaaaaaaaaaaaaaaaaaaaaaaaaaaaaaaaaaa" none none
      "execution" "i:sample" none = .ok () := by
  rw [checkRecordIdentity, requireDigest_ok]
  · exact toOption_eq_some.mp (by decide +kernel)
  · exact isSha256_ofList (by decide)

def sampleRecord (storageRevision : Nat) : StoredRecord where
  keyDigest := "aaaaaaaaaaaaaaaaaaaaaaaaaaaaaaaaaaaaaaaaaaaaaaaaaaaaaaaaaaaaaaaa"
  scopeDigest := none
  parentDigest := none
  kind := "execution"
  sortKey := "i:sample"
  state := none
  storageRevision := storageRevision
  leaseOwner := none
  leaseFence := 0
  leaseExpiresAt := none
  data := []
  identified := sampleRecord_identified

/-- A callback that inserts a record, replaces it at a revision it has not reached, and goes
on after the conflict. -/
def conflictSwallowed : Callback Unit :=
  .call () (.insertRecords [sampleRecord 0]) fun _ =>
    .call () (.replaceRecords [⟨sampleRecord 4, 3⟩]) fun _ => .done

theorem swallowed_conflict_may_commit :
    ¬∀ (group : MemoryGroup Unit) (lifecycle : GroupLifecycle Unit) (stores : List Unit)
      (callback : Callback Unit), (mutationMachine Unit).Reachable group →
      (∃ performed ∈ (group.callbackRun lifecycle stores callback).performed,
        ∃ replacements details, performed.operation = .replaceRecords replacements ∧
          performed.answer = .error (.raised (.ai .storageConflict details))) →
      (group.mutate lifecycle stores callback).2 = group := by
  intro unchanged
  have kept := unchanged (fun _ => {}) {} [()] conflictSwallowed (.of_initial fun _ => rfl)
    ⟨_, mem_cons_of_mem _ mem_cons_self, _, _, rfl, rfl⟩
  have stored : ((MemoryGroup.mutate (fun _ => {}) {} [()] conflictSwallowed).2 ()).records.keys ≠
      [] := by
    decide +kernel
  rw [kept] at stored
  exact stored rfl

end Linktools.State
