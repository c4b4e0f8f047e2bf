import Linktools.State.Atomicity

namespace Linktools.State

open Library Action List

/-! Batches of writes.  Records are checked before the first of them is written; aliases and
facts are written one by one. -/

inductive BatchCall
  | insertRecords (records : List StoredRecord)
  | replaceRecords (replacements : List RecordReplacement)
  | insertAliases (aliases : List (Digest × Digest))
  | insertFacts (facts : List StoredFact)

def BatchCall.call : BatchCall → TransactionCall
  | .insertRecords records => .insertRecords records
  | .replaceRecords replacements => .replaceRecords replacements
  | .insertAliases aliases => .insertAliases aliases
  | .insertFacts facts => .insertFacts facts

def Failure.IsConflict (error : Failure) : Prop :=
  ∃ details, error = .raised (.ai .storageConflict details)

/-- The insertion of one element under its key.  It conflicts with a value that is there and does
not agree, and its owner must be guarded. -/
structure GuardedInsert (α κ ν : Type) [DecidableEq κ] where
  insert : α → Transact PUnit
  write : MemoryTransaction → α → MemoryTransaction
  table : MemoryTransaction → κ → Option ν
  key : α → κ
  value : α → ν
  owner : α → Digest
  agree : ν → ν → Prop
  same_of_agree : ∀ {left right}, agree left right → left = right
  table_write : ∀ tx item other, table (write tx item) other =
    if other = key item then some (value item) else table tx other
  guarded_write : ∀ tx item,
    (write tx item).guardedRecordKeys = tx.guardedRecordKeys
  view_writes : ∀ tx (items : List α),
    (items.foldl write tx).view = tx.view ↔
      table (items.foldl write tx) = table tx
  conflicts : ∀ tx item,
    (∃ found ∈ table tx (key item), ¬agree found (value item)) →
    runOn (insert item) tx = (.error .conflict, tx)
  unowned : ∀ tx item, owner item ∉ tx.guardedRecordKeys →
    (∀ found ∈ table tx (key item), agree found (value item)) → ∃ message,
      runOn (insert item) tx = (.error (.runtimeError message), tx)
  writes : ∀ tx item, owner item ∈ tx.guardedRecordKeys →
    (∀ found ∈ table tx (key item), agree found (value item)) →
      runOn (insert item) tx = (.ok ⟨⟩, write tx item)

namespace GuardedInsert

variable {α κ ν : Type} [DecidableEq κ] (inserts : GuardedInsert α κ ν)
  {tx after : MemoryTransaction} {items earlier : List α} {item head : α}

def Blocked (tx : MemoryTransaction) (item : α) : Prop :=
  ∃ found ∈ inserts.table tx (inserts.key item), ¬inserts.agree found (inserts.value item)

def Clash (left right : α) : Prop :=
  inserts.key left = inserts.key right ∧ ¬inserts.agree (inserts.value left) (inserts.value right)

structure Admits (tx : MemoryTransaction) (items : List α) : Prop where
  owned : ∀ item ∈ items, inserts.owner item ∈ tx.guardedRecordKeys
  free : ∀ item ∈ items, ¬inserts.Blocked tx item
  apart : items.Pairwise fun left right => ¬inserts.Clash left right

/-- An element that is not there yet comes before one that is in conflict. -/
def PartlyWrites (tx : MemoryTransaction) (items : List α) : Prop :=
  ∃ earlier item later, items = earlier ++ item :: later ∧ inserts.Admits tx earlier ∧
    (∃ other ∈ earlier, inserts.table tx (inserts.key other) = none) ∧
    (inserts.Blocked tx item ∨ ∃ other ∈ earlier, inserts.Clash other item)

variable {inserts}

theorem blocked_write (free : ¬inserts.Blocked tx head) :
    inserts.Blocked (inserts.write tx head) item ↔
      inserts.Blocked tx item ∨ inserts.Clash head item := by
  unfold Blocked
  rw [inserts.table_write]
  split
  case isTrue same =>
    constructor
    · rintro ⟨found, written, differs⟩
      cases written
      exact .inr ⟨same.symm, differs⟩
    · rintro (⟨found, stored, differs⟩ | clash)
      · refine ⟨_, rfl, fun agree => differs ?_⟩
        have kept : inserts.agree found (inserts.value head) := by
          by_contra other
          exact free ⟨found, same ▸ stored, other⟩
        rwa [inserts.same_of_agree kept]
      · exact ⟨_, rfl, clash.2⟩
  case isFalse other => exact (or_iff_left fun clash => other clash.1.symm).symm

theorem admits_cons : inserts.Admits tx (head :: items) ↔
    (inserts.owner head ∈ tx.guardedRecordKeys ∧ ¬inserts.Blocked tx head) ∧
      inserts.Admits (inserts.write tx head) items := by
  constructor
  · rintro ⟨owned, free, apart⟩
    obtain ⟨headOwned, othersOwned⟩ := forall_mem_cons.mp owned
    obtain ⟨headFree, othersFree⟩ := forall_mem_cons.mp free
    obtain ⟨fromHead, others⟩ := pairwise_cons.mp apart
    refine ⟨⟨headOwned, headFree⟩, ?_, fun item member => ?_, others⟩
    · rwa [inserts.guarded_write]
    · rw [blocked_write headFree]
      exact not_or.mpr ⟨othersFree item member, fromHead item member⟩
  · rintro ⟨⟨owned, free⟩, ⟨othersOwned, othersFree, others⟩⟩
    rw [inserts.guarded_write] at othersOwned
    have apart := fun item member => not_or.mp ((blocked_write free).not.mp
      (othersFree item member))
    exact ⟨forall_mem_cons.mpr ⟨owned, othersOwned⟩,
      forall_mem_cons.mpr ⟨free, fun item member => (apart item member).1⟩,
      pairwise_cons.mpr ⟨fun item member => (apart item member).2, others⟩⟩

theorem blocked_writes (admits : inserts.Admits tx earlier) :
    inserts.Blocked (earlier.foldl inserts.write tx) item ↔
      inserts.Blocked tx item ∨ ∃ other ∈ earlier, inserts.Clash other item := by
  induction earlier generalizing tx with
  | nil => simp
  | cons head tail step =>
    obtain ⟨⟨_, free⟩, rest⟩ := admits_cons.mp admits
    rw [foldl_cons, step rest, blocked_write free, exists_mem_cons_iff, or_assoc]

theorem table_writes (admits : inserts.Admits tx earlier) :
    inserts.table (earlier.foldl inserts.write tx) = inserts.table tx ↔
      ∀ other ∈ earlier, inserts.table tx (inserts.key other) ≠ none := by
  constructor
  · intro same other member absent
    rw [← same] at absent
    have kept : ∀ (items : List α) (tx : MemoryTransaction),
        (other ∈ items ∨ inserts.table tx (inserts.key other) ≠ none) →
          inserts.table (items.foldl inserts.write tx) (inserts.key other) ≠ none := by
      intro items
      induction items with
      | nil => exact fun tx present => present.resolve_left not_mem_nil
      | cons head tail step =>
        intro tx present
        apply step
        rw [inserts.table_write, mem_cons] at *
        split
        case isTrue => exact .inr (Option.some_ne_none _)
        case isFalse different =>
          exact present.imp_left fun member =>
            member.resolve_left fun equal => different (equal ▸ rfl)
    exact kept earlier tx (.inl member) absent
  · intro present
    induction earlier generalizing tx with
    | nil => rfl
    | cons head tail step =>
      obtain ⟨⟨_, free⟩, rest⟩ := admits_cons.mp admits
      have same : inserts.table (inserts.write tx head) = inserts.table tx := by
        funext other
        rw [inserts.table_write]
        split
        case isFalse => rfl
        case isTrue here =>
          obtain ⟨found, stored⟩ := Option.ne_none_iff_exists'.mp (present head mem_cons_self)
          rw [here, stored]
          by_contra differs
          exact free ⟨found, stored, fun agree =>
            differs (congrArg some (inserts.same_of_agree agree).symm)⟩
      rw [foldl_cons, ← same]
      apply step rest
      rw [same]
      exact fun other member => present other (mem_cons_of_mem _ member)

theorem runOn_conflict : (∃ error, runOn (items.forM inserts.insert) tx =
      (.error error, after) ∧ error.IsConflict) ↔
    ∃ earlier item later, items = earlier ++ item :: later ∧ inserts.Admits tx earlier ∧
      after = earlier.foldl inserts.write tx ∧ inserts.Blocked after item := by
  induction items generalizing tx with
  | nil =>
    refine iff_of_false ?_ ?_
    · rintro ⟨_, ⟨⟩, _⟩
    · rintro ⟨earlier, item, later, split, -⟩
      simp at split
  | cons head tail step =>
    have ran : runOn ((head :: tail).forM inserts.insert) tx =
      runOn (inserts.insert head >>= fun _ => tail.forM inserts.insert) tx := rfl
    by_cases blocked : inserts.Blocked tx head
    · rw [ran, runOn_bind_of_error (inserts.conflicts tx head blocked)]
      constructor
      · rintro ⟨_, same, -⟩
        cases same
        exact ⟨[], head, tail, rfl, ⟨nofun, nofun, List.Pairwise.nil⟩, rfl, blocked⟩
      · rintro ⟨earlier, item, later, split, admits, rfl, -⟩
        cases earlier with
        | nil => exact ⟨_, rfl, _, rfl⟩
        | cons =>
          cases split
          exact absurd blocked (admits.free _ mem_cons_self)
    · have free : ∀ found ∈ inserts.table tx (inserts.key head),
          inserts.agree found (inserts.value head) := by
        intro found stored
        by_contra differs
        exact blocked ⟨found, stored, differs⟩
      by_cases owned : inserts.owner head ∈ tx.guardedRecordKeys
      · rw [ran, runOn_bind_of_ok (inserts.writes tx head owned free), step]
        constructor
        · rintro ⟨earlier, item, later, rfl, admits, written, refused⟩
          exact ⟨head :: earlier, item, later, rfl,
            admits_cons.mpr ⟨⟨owned, blocked⟩, admits⟩, written, refused⟩
        · rintro ⟨earlier, item, later, split, admits, rfl, refused⟩
          cases earlier with
          | nil =>
            cases split
            exact absurd refused blocked
          | cons first rest =>
            cases split
            exact ⟨rest, item, later, rfl, (admits_cons.mp admits).2, rfl, refused⟩
      · obtain ⟨message, raised⟩ := inserts.unowned tx head owned free
        rw [ran, runOn_bind_of_error raised]
        refine iff_of_false ?_ ?_
        · rintro ⟨_, ⟨⟩, _, ⟨⟩⟩
        · rintro ⟨earlier, item, later, split, admits, rfl, refused⟩
          cases earlier with
          | nil =>
            cases split
            exact blocked refused
          | cons =>
            cases split
            exact owned (admits.owned _ mem_cons_self)

theorem hidden_iff : (∀ error after, runOn (items.forM inserts.insert) tx =
      (.error error, after) → error.IsConflict → after.view = tx.view) ↔
    ¬inserts.PartlyWrites tx items := by
  constructor
  · rintro hidden ⟨earlier, item, later, split, admits, ⟨other, member, unset⟩, conflict⟩
    obtain ⟨error, ran, kind⟩ := runOn_conflict.mpr
      ⟨earlier, item, later, split, admits, rfl, (blocked_writes admits).mpr conflict⟩
    have same := (inserts.view_writes tx earlier).mp (hidden error _ ran kind)
    exact (table_writes admits).mp same other member unset
  · intro whole error after ran kind
    obtain ⟨earlier, item, later, split, admits, rfl, blocked⟩ :=
      runOn_conflict.mp ⟨error, ran, kind⟩
    rw [inserts.view_writes, table_writes admits]
    exact fun other member unset => whole ⟨earlier, item, later, split, admits,
      ⟨other, member, unset⟩, (blocked_writes admits).mp blocked⟩

end GuardedInsert

namespace MemoryTransaction

variable {tx after : MemoryTransaction}

def factInserts : GuardedInsert StoredFact (Digest × Nat) StoredFact where
  insert := insertFact
  write := setFact
  table tx := tx.facts.lookup
  key fact := (fact.streamDigest, fact.sequence)
  value := id
  owner := StoredFact.ownerKeyDigest
  agree _ _ := False
  same_of_agree := False.elim
  table_write tx fact other := by
    split
    case isTrue same =>
      subst same
      exact Overlay.lookup_set
    case isFalse different => exact Overlay.lookup_set_of_ne different
  guarded_write _ _ := rfl
  view_writes tx facts := by
    have written : (facts.foldl setFact tx).view =
        { tx.view with facts := (facts.foldl setFact tx).facts.lookup } := by
      induction facts generalizing tx with
      | nil => rfl
      | cons head tail step => exact step _
    rw [written]
    exact ⟨congrArg StoreView.facts, congrArg fun facts => { tx.view with facts }⟩
  conflicts tx fact := by
    rintro ⟨found, stored, -⟩
    rw [Option.mem_def] at stored
    rw [insertFact, runOn_bind_get, stored, refuse_of (by rfl)]
    exact runOn_error_bind
  unowned tx fact unowned free := by
    have absent : tx.facts.lookup (fact.streamDigest, fact.sequence) = none :=
      Option.eq_none_iff_forall_not_mem.mpr free
    rw [insertFact, runOn_bind_get, absent, refuse_of_not (by decide), runOn_ok_bind,
      refuse_of unowned]
    exact ⟨_, runOn_error_bind⟩
  writes tx fact owned free := by
    have absent : tx.facts.lookup (fact.streamDigest, fact.sequence) = none :=
      Option.eq_none_iff_forall_not_mem.mpr free
    rw [insertFact, runOn_bind_get, absent, refuse_of_not (by decide), runOn_ok_bind,
      refuse_of_not (not_not.mpr owned)]
    rfl

theorem not_differs {current : Option Digest} (free : ∀ found ∈ current, found = key) :
    ¬(current.any fun current => current ≠ key) = true := by
  simp only [Option.any_eq_true, not_exists, not_and]
  exact fun found stored => by simpa using free found stored

def aliasInserts : GuardedInsert (Digest × Digest) Digest Digest where
  insert entry := insertAlias entry.1 entry.2
  write tx entry := tx.setAlias entry.1 entry.2
  table tx := tx.aliases.lookup
  key := Prod.fst
  value := Prod.snd
  owner := Prod.snd
  agree := Eq
  same_of_agree := id
  table_write tx entry other := by
    split
    case isTrue same =>
      subst same
      exact Overlay.lookup_set
    case isFalse different => exact Overlay.lookup_set_of_ne different
  guarded_write _ _ := rfl
  view_writes tx entries := by
    let write := fun (tx : MemoryTransaction) (entry : Digest × Digest) =>
      tx.setAlias entry.1 entry.2
    have written : (entries.foldl write tx).view =
        { tx.view with aliases := (entries.foldl write tx).aliases.lookup } := by
      induction entries generalizing tx with
      | nil => rfl
      | cons head tail step => exact step _
    rw [written]
    exact ⟨congrArg StoreView.aliases, congrArg fun aliases => { tx.view with aliases }⟩
  conflicts tx entry := by
    rintro ⟨found, stored, differs⟩
    rw [Option.mem_def] at stored
    rw [insertAlias, runOn_bind_get, stored, refuse_of (by simpa using differs)]
    exact runOn_error_bind
  unowned tx entry unowned free := by
    rw [insertAlias, runOn_bind_get, refuse_of_not (not_differs free), runOn_ok_bind,
      refuse_of unowned]
    exact ⟨_, runOn_error_bind⟩
  writes tx entry owned free := by
    rw [insertAlias, runOn_bind_get, refuse_of_not (not_differs free), runOn_ok_bind,
      refuse_of_not (not_not.mpr owned)]
    rfl

variable {error : Failure}

theorem insertRecords_kept {records : List StoredRecord}
    (ran : runOn (insertRecords records) tx = (.error error, after)) :
    after = tx := by
  unfold insertRecords at ran
  by_cases repeated : (records.map (·.keyDigest)).Nodup
  case neg =>
    rw [refuse_of repeated, runOn_error_bind] at ran
    exact (Prod.mk.inj ran).2.symm
  rw [refuse_of_not (not_not.mpr repeated), runOn_ok_bind, runOn_bind_get] at ran
  by_cases present : (records.any fun record =>
      (tx.records.lookup record.keyDigest).isSome) = true
  case pos =>
    rw [refuse_of present, runOn_error_bind] at ran
    exact (Prod.mk.inj ran).2.symm
  rw [refuse_of_not present, runOn_ok_bind, runOn_forM_modify] at ran
  cases ran

theorem replaceRecords_kept
    (ran : runOn (replaceRecords replacements) tx = (.error error, after)) :
    after.view = tx.view := by
  rcases replaceRecords_cases tx replacements
    with ⟨_, replaced, _⟩ | ⟨_, replaced⟩ | ⟨_, replaced⟩
  · cases replaced.symm.trans ran
  · cases replaced.symm.trans ran
    rfl
  · cases replaced.symm.trans ran
    split <;> rfl

end MemoryTransaction

open MemoryTransaction

/-- An element of the batch that is not there yet is written before the one in conflict. -/
def BatchCall.PartlyWrites (tx : MemoryTransaction) : BatchCall → Prop
  | .insertRecords _ | .replaceRecords _ => False
  | .insertAliases aliases => aliasInserts.PartlyWrites tx
      (aliases.insertionSort fun left right => left.1 ≤ right.1)
  | .insertFacts facts => factInserts.PartlyWrites tx facts

def BatchCall.Conflicts (batch : BatchCall) (tx : MemoryTransaction) (error : Failure)
    (after : MemoryTransaction) : Prop :=
  runOn batch.call.perform tx = (.error error, after) ∧ error.IsConflict

theorem perform_error {α : Type} {action : Transact α} {tx after : MemoryTransaction}
    {error : Failure} {answer : α → TransactionAnswer} :
    runOn (do let value ← action; return answer value) tx = (.error error, after) ↔
      runOn action tx = (.error error, after) := by
  have mapped : runOn (do let value ← action; return answer value) tx =
      (answer <$> (runOn action tx).1, (runOn action tx).2) :=
    runOn_map
  rw [mapped]
  rcases runOn action tx with ⟨_ | _, _⟩
  · simp
  · exact iff_of_false nofun nofun

theorem BatchCall.hidden_iff (batch : BatchCall) (tx : MemoryTransaction) :
    (∀ error after, batch.Conflicts tx error after → after.view = tx.view) ↔
      ¬batch.PartlyWrites tx := by
  unfold Conflicts
  cases batch with
  | insertRecords records =>
    refine iff_of_true (fun error after ran => ?_) id
    rw [insertRecords_kept (perform_error.mp ran.1)]
  | replaceRecords replacements =>
    exact iff_of_true (fun error after ran => replaceRecords_kept (perform_error.mp ran.1)) id
  | insertAliases aliases =>
    rw [PartlyWrites, ← GuardedInsert.hidden_iff]
    simp only [BatchCall.call, TransactionCall.perform, perform_error, and_imp]
    rfl
  | insertFacts facts =>
    rw [PartlyWrites, ← GuardedInsert.hidden_iff]
    simp only [BatchCall.call, TransactionCall.perform, perform_error, and_imp]
    rfl

/-- Nothing of a batch in conflict can be seen afterwards: not in the transaction, and not in
the store that is committed with the transaction as the call left it. -/
structure BatchCall.AllOrNothing (batch : BatchCall) (tx : MemoryTransaction) : Prop where
  hidden : ∀ error after, batch.Conflicts tx error after → after.view = tx.view
  uncommitted : ∀ {ι : Type} [DecidableEq ι] (group : MemoryGroup ι) (lifecycle : GroupLifecycle ι)
    (stores : List ι) (callback : Callback ι), ∀ store ∈ lifecycle.members stores,
    ∀ error after, batch.Conflicts tx error after →
    (group.callbackRun lifecycle stores callback).transactions store = after →
    (group.mutate lifecycle stores callback).2 = group ∨
      ((group.mutate lifecycle stores callback).2 store).view = tx.view

theorem batches_are_all_or_nothing_iff (batch : BatchCall) (tx : MemoryTransaction) :
    batch.AllOrNothing tx ↔ ¬batch.PartlyWrites tx := by
  rw [← batch.hidden_iff]
  refine ⟨BatchCall.AllOrNothing.hidden, fun hidden => ⟨hidden, ?_⟩⟩
  intro ι _ group lifecycle stores callback store member error after conflicts left
  rcases MemoryGroup.mutate_cases group lifecycle stores callback with ⟨committed, -, -⟩ | ⟨_, kept⟩
  · right
    rw [committed, MemoryGroup.view_commit, if_pos member, left]
    exact hidden error after conflicts
  · exact .inl (congrArg Prod.snd kept)

def sampleFact (sequence : Nat) : StoredFact where
  streamDigest := (sampleRecord 0).keyDigest
  sequence := sequence
  ownerKeyDigest := (sampleRecord 0).keyDigest
  kind := "event"
  subjectDigest := none
  state := none
  data := []

def firstInserted : MemoryTransaction :=
  ((MemoryTransaction.begin {}).setRecord (sampleRecord 0).keyDigest (sampleRecord 0)).setFact
    (sampleFact 1)

theorem second_before_first :
    factInserts.PartlyWrites firstInserted [sampleFact 2, sampleFact 1] := by
  have lookup := factInserts.table_write ((begin {}).setRecord (sampleRecord 0).keyDigest
    (sampleRecord 0)) (sampleFact 1)
  have absent : factInserts.table firstInserted (factInserts.key (sampleFact 2)) = none :=
    (lookup _).trans (if_neg fun same => absurd (congrArg Prod.snd same) (by decide))
  refine ⟨[sampleFact 2], sampleFact 1, [], rfl, ⟨?_, ?_, pairwise_singleton _ _⟩,
    ⟨_, mem_singleton_self _, absent⟩, .inl ⟨_, (lookup _).trans (if_pos rfl), id⟩⟩
  · exact forall_mem_singleton.mpr mem_cons_self
  · rw [forall_mem_singleton]
    rintro ⟨found, stored, -⟩
    cases absent.symm.trans stored

theorem a_conflicting_batch_of_facts_is_partly_written :
    ¬∀ (batch : BatchCall) (tx : MemoryTransaction), batch.AllOrNothing tx := by
  intro whole
  have hidden := (whole (.insertFacts [sampleFact 2, sampleFact 1]) firstInserted).hidden
  exact (BatchCall.hidden_iff _ _).mp hidden second_before_first

end Linktools.State
