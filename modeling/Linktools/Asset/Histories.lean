import Linktools.Asset.Changes
import Linktools.Library.Machine

namespace Linktools.Asset

open Linktools.Core Library Library.Action AssetBackend Function List

variable {backend : AssetBackend} {store after : AssetStore} {key : AssetKey}
  {info : AssetInfo} {clock : AssetKey → Time}

structure EntrySummary where
  status : StorageEntryStatus
  digest : String
  metadata : JsonMapping
  revision : Nat
  value : Bytes

def entrySummary (entry : AssetEntry) : EntrySummary :=
  ⟨entry.1.status, entry.1.digest, entry.1.metadata, entry.1.revision, entry.2⟩

def AssetStore.summary (store : AssetStore) (key : AssetKey) : Option EntrySummary :=
  (store.entries key).map entrySummary

def AssetBackend.changedEntry (backend : AssetBackend) (change : StorageChange)
    (previous : Option AssetEntry) : Option EntrySummary :=
  if backend.changeMutates change.operation change.content previous then
    some ⟨change.operation.status, backend.digest change.content, change.metadata,
      (previous.map (·.1.revision)).getD 0 + 1, change.content⟩
  else previous.map entrySummary

variable {changes rest : List StorageChange} {change : StorageChange}
  {previous : AssetKey → Option AssetEntry} {storeRevision : String}

/-- The effect of changes, one after the other, where `previous` is what the entries of their
keys were at the start, and `turn` is what happens to the store before each version. -/
inductive Applied (backend : AssetBackend) (turn : AssetStore → AssetStore)
    (previous : AssetKey → Option AssetEntry) (clock : AssetKey → Time) :
    List StorageChange → AssetStore → AssetStore → Prop
  | nil {store : AssetStore} : Applied backend turn previous clock [] store store
  | unchanged {change : StorageChange} {rest : List StorageChange} {store after : AssetStore}
      (same : backend.changeMutates change.operation change.content (previous change.key) = false)
      (later : Applied backend turn previous clock rest store after) :
      Applied backend turn previous clock (change :: rest) store after
  | written {change : StorageChange} {rest : List StorageChange} {store after : AssetStore}
      {info : AssetInfo}
      (mutates : backend.changeMutates change.operation change.content (previous change.key) = true)
      (made : backend.nextInfo (turn store) change.key change.content (previous change.key)
        change.operation.status (some change.metadata) (clock change.key) = .ok info)
      (later : Applied backend turn previous clock rest
        ((turn store).record info change.content) after) :
      Applied backend turn previous clock (change :: rest) store after

theorem content_of_clears (clears : change.operation ≠ .put) : change.content = [] := by
  have absent : change.value.isSome ≠ true := fun present => clears (change.shaped.mp present)
  rw [StorageChange.content, Option.not_isSome_iff_eq_none.mp absent]
  rfl

inductive ApplyEnds (backend : AssetBackend) (previous : AssetKey → Option AssetEntry)
    (clock : AssetKey → Time) (change : StorageChange) (store : AssetStore) :
    Except Raised StorageResult × AssetStore → Prop
  | unchanged {result : StorageResult}
      (same : backend.changeMutates change.operation change.content (previous change.key) = false) :
      ApplyEnds backend previous clock change store (.ok result, store)
  | written {result : StorageResult} {info : AssetInfo}
      (mutates : backend.changeMutates change.operation change.content (previous change.key) = true)
      (made : backend.nextInfo store change.key change.content (previous change.key)
        change.operation.status (some change.metadata) (clock change.key) = .ok info) :
      ApplyEnds backend previous clock change store (.ok result, store.record info change.content)

theorem ApplyEnds.of_write
    (mutates : backend.changeMutates change.operation change.content (previous change.key) = true)
    (answers : ∀ info last, ∃ result, runOn (finish info) last = (.ok result, last)) :
    ApplyEnds backend previous clock change store
      (runOn (backend.recordNext change.key change.content (previous change.key)
        change.operation.status (some change.metadata) (clock change.key) >>= finish) store) := by
  have named : ∀ fields ∈ some change.metadata, fieldsNamed fields = true := by
    intro fields given
    cases given
    exact change.named
  obtain ⟨info, made⟩ := exists_nextInfo named
  rw [runOn_bind, runOn_recordNext, made]
  obtain ⟨result, answered⟩ := answers info (store.record info change.content)
  dsimp only
  rw [answered]
  exact .written mutates made

theorem ApplyEnds.of_clears (clears : change.operation ≠ .put)
    (same : change.operation.status = status)
    (answers : ∀ info last, ∃ result, runOn (finish info) last = (.ok result, last)) :
    ApplyEnds backend previous clock change store (runOn (if (previous change.key).isNone = true ∨
          (previous change.key).map (·.1.status) = some status then pure quiet
      else backend.recordNext change.key [] (previous change.key) status (some change.metadata)
        (clock change.key) >>= finish) store) := by
  have mutates : backend.changeMutates change.operation change.content (previous change.key) =
      false ↔ _ := changeMutates_clears clears
  rw [same] at mutates
  split
  case isTrue held => exact .unchanged (mutates.mpr held)
  case isFalse different =>
    rw [← content_of_clears clears, ← same]
    refine .of_write ?_ answers
    rw [← mutates] at different
    simpa using different

theorem applyChange_ends : ApplyEnds backend previous clock change store
      (runOn (backend.applyChange previous storeRevision clock change) store) := by
  rw [applyChange]
  cases kind : change.operation with
  | put =>
    have status : change.operation.status = .normal := by rw [kind]; rfl
    cases wrote : backend.changeMutates .put change.content (previous change.key) with
    | false =>
      cases stored : previous change.key with
      | none =>
        rw [stored] at wrote
        cases wrote
      | some current =>
        refine .unchanged ?_
        rw [kind]
        exact wrote
    | true =>
      have none : (previous change.key).filter (fun _ => !true) = none := by
        cases previous change.key <;> rfl
      dsimp only
      rw [none, ← status]
      refine .of_write ?_ fun info last => ⟨_, rfl⟩
      rw [kind]
      exact wrote
  | delete => exact .of_clears (by rw [kind]; decide) (by rw [kind]; rfl) fun info last => ⟨_, rfl⟩
  | reset => exact .of_clears (by rw [kind]; decide) (by rw [kind]; rfl) fun info last => ⟨_, rfl⟩

theorem applyChanges_ends : ∃ results after,
      runOn (changes.mapM (backend.applyChange previous storeRevision clock)) store =
        (.ok results, after) ∧ Applied backend id previous clock changes store after := by
  induction changes generalizing store with
  | nil => exact ⟨[], store, rfl, .nil⟩
  | cons change rest ih =>
    have ends := @applyChange_ends backend store clock change previous storeRevision
    rw [mapM_cons]
    generalize ran : runOn (backend.applyChange previous storeRevision clock change) store =
      outcome at ends
    cases ends with
    | @unchanged result same =>
      obtain ⟨results, after, loop, applied⟩ := @ih store
      refine ⟨result :: results, after, ?_, .unchanged same applied⟩
      rw [runOn_bind_of_ok ran, runOn_bind_of_ok loop]
      rfl
    | @written result info mutates made =>
      obtain ⟨results, after, loop, applied⟩ := @ih (store.record info change.content)
      refine ⟨result :: results, after, ?_, .written mutates made applied⟩
      rw [runOn_bind_of_ok ran, runOn_bind_of_ok loop]
      rfl

namespace Applied

theorem revision (applied : Applied backend id previous clock changes store after) :
    after.revision = store.revision ∧ after.batchReceipts = store.batchReceipts := by
  induction applied with
  | nil => exact ⟨rfl, rfl⟩
  | unchanged _ _ ih => exact ih
  | written _ _ _ ih => exact ih

theorem quiet {turn : AssetStore → AssetStore}
    (applied : Applied backend turn previous clock changes store after) (none : ∀ change ∈ changes,
      backend.changeMutates change.operation change.content (previous change.key) = false) :
    after = store := by
  induction applied with
  | nil => rfl
  | unchanged _ _ ih => exact ih fun other member => none other (mem_cons_of_mem _ member)
  | @written change rest store after info mutates =>
    rw [none change mem_cons_self] at mutates
    cases mutates

section Turn

variable {turn : AssetStore → AssetStore}
  (plain : ∀ store, (turn store).entries = store.entries ∧ (turn store).versions = store.versions)

include plain

section

variable (applied : Applied backend turn previous clock changes store after)
include applied

theorem grows : Grows store after := by
  induction applied with
  | nil => exact .refl _
  | unchanged _ _ ih => exact ih
  | @written change rest store after info _ _ _ ih =>
    have recorded : Grows (turn store) ((turn store).record info change.content) := record_grows
    rw [Grows, (plain store).2] at recorded
    exact Grows.trans recorded ih

theorem others
    (outside : ∀ change ∈ changes, change.key ≠ key) : after.entries key = store.entries key := by
  induction applied with
  | nil => rfl
  | unchanged _ _ ih => exact ih fun other member => outside other (mem_cons_of_mem _ member)
  | @written change rest store after info mutates made later ih =>
    have apart : key ≠ info.key := by
      rw [(nextInfo_ok made).1]
      exact (outside change mem_cons_self).symm
    rw [ih fun other member => outside other (mem_cons_of_mem _ member), ← (plain store).1]
    exact update_of_ne apart _ _

theorem changed (mutates : ∃ change ∈ changes,
      backend.changeMutates change.operation change.content (previous change.key) = true) :
    ∃ key, after.versions key ≠ store.versions key := by
  induction applied with
  | nil =>
    obtain ⟨_, member, _⟩ := mutates
    cases member
  | @unchanged change rest store after same _ ih =>
    obtain ⟨other, member, wrote⟩ := mutates
    cases mem_cons.mp member with
    | inl here =>
      rw [here, same] at wrote
      cases wrote
    | inr later => exact ih ⟨other, later, wrote⟩
  | @written change rest store after info _ _ later _ =>
    refine ⟨info.key, fun same => ?_⟩
    have longer := (grows plain later info.key).length_le
    rw [same, ← (plain store).2] at longer
    change (update (turn store).versions info.key _ info.key).length ≤ _ at longer
    rw [update_self, length_append, length_singleton] at longer
    omega

end

theorem first_written (versioned : Versioned store) (apart : ((change :: rest).map (·.key)).Nodup)
    (current : ∀ other ∈ change :: rest, previous other.key = store.entries other.key)
    (made : backend.nextInfo (turn store) change.key change.content (previous change.key)
      change.operation.status (some change.metadata) (clock change.key) = .ok info) :
    Versioned ((turn store).record info change.content) ∧ (∀ other ∈ rest, previous other.key =
        ((turn store).record info change.content).entries other.key) ∧
      entrySummary (info, change.content) = ⟨change.operation.status,
        backend.digest change.content, change.metadata,
        ((previous change.key).map (·.1.revision)).getD 0 + 1, change.content⟩ := by
  rw [map_cons, nodup_cons] at apart
  obtain ⟨own, next, digest, status, metadata⟩ := nextInfo_ok made
  have turned : Versioned (turn store) := by
    constructor
    · rw [(plain store).2]
      exact versioned.numbered
    · rw [(plain store).1, (plain store).2]
      exact versioned.current
  have here : previous change.key = (turn store).entries change.key := by
    rw [(plain store).1]
    exact current change mem_cons_self
  refine ⟨turned.record ?_, fun other member => ?_, ?_⟩
  · rw [next, here, turned.previousRevision, own]
  · have different : other.key ≠ info.key := by
      rw [own]
      intro same
      exact apart.1 (same ▸ mem_map_of_mem member)
    rw [current other (mem_cons_of_mem _ member), ← (plain store).1]
    exact (update_of_ne different _ _).symm
  · rw [here, turned.previousRevision_eq, ← here] at next
    rw [entrySummary, status, digest, metadata, next]
    rfl

section

variable (applied : Applied backend turn previous clock changes store after)
include applied

theorem versioned (versioned : Versioned store) (apart : (changes.map (·.key)).Nodup)
    (current : ∀ change ∈ changes, previous change.key = store.entries change.key) :
    Versioned after := by
  induction applied with
  | nil => exact versioned
  | unchanged _ _ ih =>
    rw [map_cons, nodup_cons] at apart
    exact ih versioned apart.2 fun other member => current other (mem_cons_of_mem _ member)
  | written mutates made later ih =>
    obtain ⟨recorded, others, _⟩ := first_written plain versioned apart current made
    exact ih recorded (nodup_cons.mp apart).2 others

/-- What changes make of an entry does not depend on the turns in between. -/
theorem summary (versioned : Versioned store) (apart : (changes.map (·.key)).Nodup)
    (current : ∀ change ∈ changes, previous change.key = store.entries change.key)
    (key : AssetKey) : after.summary key =
      match changes.find? fun change => change.key = key with
      | some change => backend.changedEntry change (previous key)
      | none => store.summary key := by
  have found : ∀ {change : StorageChange} {rest : List StorageChange}, change.key = key →
      (change :: rest).find? (fun change => change.key = key) = some change := by
    intro change rest own
    exact find?_cons_of_pos (by rwa [decide_eq_true_eq])
  have skipped : ∀ {change : StorageChange} {rest : List StorageChange}, change.key ≠ key →
      (change :: rest).find? (fun change => change.key = key) =
        rest.find? fun change => change.key = key := by
    intro change rest other
    exact find?_cons_of_neg (by rwa [decide_eq_true_eq])
  have outside : ∀ {change : StorageChange} {rest : List StorageChange},
      ((change :: rest).map (·.key)).Nodup → change.key = key →
      ∀ other ∈ rest, other.key ≠ key := by
    intro change rest apart own other member taken
    rw [map_cons, nodup_cons] at apart
    exact apart.1 (own.trans taken.symm ▸ mem_map_of_mem member)
  induction applied with
  | nil => rfl
  | @unchanged change rest store after same later ih =>
    by_cases own : change.key = key
    case pos =>
      rw [found own, AssetStore.summary,
        others plain later (outside apart own), ← own, ← current change mem_cons_self]
      dsimp only
      rw [changedEntry, if_neg (by rw [same]; exact Bool.noConfusion)]
    case neg =>
      rw [skipped own]
      exact ih versioned (nodup_cons.mp apart).2 fun other member =>
        current other (mem_cons_of_mem _ member)
  | @written change rest store after info mutates made later ih =>
    obtain ⟨recorded, kept, shown⟩ := first_written plain versioned apart current made
    by_cases own : change.key = key
    case pos =>
      have written : ((turn store).record info change.content).entries key =
          some (info, change.content) := by
        rw [← own, ← (nextInfo_ok made).1]
        exact update_self _ _ _
      rw [found own, AssetStore.summary,
        others plain later (outside apart own), written, Option.map_some, shown]
      dsimp only
      rw [changedEntry, ← own, if_pos mutates]
    case neg =>
      have apartKey : key ≠ info.key := by
        rw [(nextInfo_ok made).1]
        exact Ne.symm own
      have same : ((turn store).record info change.content).summary key = store.summary key := by
        rw [AssetStore.summary, AssetStore.summary, ← (plain store).1]
        exact congrArg (Option.map entrySummary) (update_of_ne apartKey _ _)
      rw [skipped own, ih recorded (nodup_cons.mp apart).2 kept, same]

end

end Turn

end Applied

def AssetBackend.single (backend : AssetBackend) (clock : AssetKey → Time)
    (change : StorageChange) : Versioning StorageResult :=
  match change.operation with
  | .put => backend.put change.key change.content change.expectedRevision
      (some change.metadata) (clock change.key)
  | .delete => backend.delete change.key change.expectedRevision (some change.metadata)
      (clock change.key)
  | .reset => backend.reset change.key change.expectedRevision (some change.metadata)
      (clock change.key)

def AssetBackend.oneByOne (backend : AssetBackend) (clock : AssetKey → Time)
    (changes : List StorageChange) : Versioning (List StorageResult) :=
  changes.mapM (backend.single clock)

theorem single_ends :
    ChangeEnds backend store change.operation change.key change.content change.expectedRevision
      (some change.metadata) (clock change.key) (runOn (backend.single clock change) store) := by
  rw [single]
  cases kind : change.operation with
  | put => exact put_ends
  | delete =>
    rw [content_of_clears (by rw [kind]; decide)]
    exact delete_ends
  | reset =>
    rw [content_of_clears (by rw [kind]; decide)]
    exact reset_ends

theorem oneByOne_ends (writable : backend.writable = true) (apart : (changes.map (·.key)).Nodup)
    (current : ∀ change ∈ changes, previous change.key = store.entries change.key)
    (checked : ∀ change ∈ changes,
      checkRevision (previous change.key) change.expectedRevision = .ok ()) :
    ∃ results after, runOn (backend.oneByOne clock changes) store = (.ok results, after) ∧
      Applied backend AssetStore.advance previous clock changes store after := by
  unfold oneByOne
  induction changes generalizing store with
  | nil => exact ⟨[], store, rfl, .nil⟩
  | cons change rest ih =>
    rw [map_cons, nodup_cons] at apart
    have here := current change mem_cons_self
    have admits : Admits backend store change.key change.expectedRevision := by
      refine ⟨writable, ?_⟩
      rw [← here]
      exact checked change mem_cons_self
    have checkedRest : ∀ other ∈ rest, _ := fun other member =>
      checked other (mem_cons_of_mem _ member)
    have ends := @single_ends backend store clock change
    rw [mapM_cons]
    generalize ran : runOn (backend.single clock change) store = outcome at ends
    cases ends with
    | refused refused => exact absurd admits refused
    | late _ _ unnamed =>
      obtain ⟨fields, given, unnamed⟩ := unnamed
      cases given
      rw [change.named] at unnamed
      cases unnamed
    | @unchanged result _ same =>
      obtain ⟨results, after, loop, applied⟩ := ih apart.2
        (fun other member => current other (mem_cons_of_mem _ member)) checkedRest
      rw [← here] at same
      refine ⟨result :: results, after, ?_, .unchanged same applied⟩
      rw [runOn_bind_of_ok ran, runOn_bind_of_ok loop]
      rfl
    | @written result info _ mutates made =>
      rw [← here] at mutates made
      have moved : ∀ other ∈ rest, previous other.key =
          (store.advance.record info change.content).entries other.key := by
        intro other member
        have different : other.key ≠ info.key := by
          rw [(nextInfo_ok made).1]
          intro same
          exact apart.1 (same ▸ mem_map_of_mem member)
        rw [current other (mem_cons_of_mem _ member)]
        exact (update_of_ne different _ _).symm
      obtain ⟨results, after, loop, applied⟩ := ih apart.2 moved checkedRest
      refine ⟨result :: results, after, ?_, .written mutates made applied⟩
      rw [runOn_bind_of_ok ran, runOn_bind_of_ok loop]
      rfl

def AssetStore.withReceipt (store : AssetStore) (idempotencyKey : Option String)
    (result : StorageBatchResult) : String → Option StorageBatchResult :=
  match idempotencyKey with
  | some key => update store.batchReceipts key (some result)
  | none => store.batchReceipts

structure BatchApplied (backend : AssetBackend) (changes : List StorageChange)
    (clock : AssetKey → Time) (store after : AssetStore) : Prop where
  apart : (changes.map (·.key)).Nodup
  checked : ∀ change ∈ changes,
    checkRevision (store.entries change.key) change.expectedRevision = .ok ()
  versioned : Versioned after
  grows : Grows store after
  accounts : Accounts store after
  summary : ∀ key, after.summary key =
    match changes.find? fun change => change.key = key with
    | some change => backend.changedEntry change (store.entries key)
    | none => store.summary key

theorem advance_plain (store : AssetStore) :
    store.advance.entries = store.entries ∧ store.advance.versions = store.versions :=
  ⟨rfl, rfl⟩

variable {expectedRevision idempotencyKey requestDigest : Option String}

theorem applyFresh_ends (versioned : Versioned store) :
    (∃ raised, runOn (backend.applyFresh changes expectedRevision idempotencyKey requestDigest
        clock) store = (.error raised, store)) ∨
    ∃ result after, runOn (backend.applyFresh changes expectedRevision idempotencyKey
        requestDigest clock) store = (.ok result, after) ∧
      BatchApplied backend changes clock store after ∧ result.requestDigest = requestDigest ∧
      after.batchReceipts = store.withReceipt idempotencyKey result := by
  rw [applyFresh, runOn_bind_get]
  cases reached : refuse (expectedRevision ≠ none ∧
      expectedRevision ≠ some store.storeRevision) Raised.conflict with
  | error raised => exact .inl ⟨raised, rfl⟩
  | ok =>
  rw [runOn_ok_bind]
  cases distinct : refuse (¬(changes.map (·.key)).Nodup) (Raised.ai .storageBatchDuplicateKey) with
  | error raised => exact .inl ⟨raised, rfl⟩
  | ok =>
  rw [runOn_ok_bind]
  dsimp only
  cases checks : changes.forM fun change =>
      checkRevision (store.entries change.key) change.expectedRevision with
  | error raised => exact .inl ⟨raised, rfl⟩
  | ok =>
  have apart : (changes.map (·.key)).Nodup := not_not.mp (refuse_eq_ok.mp distinct)
  have checked := forM_eq_ok.mp checks
  refine .inr ?_
  rw [runOn_ok_bind]
  generalize mutated : (changes.any fun change => backend.changeMutates change.operation
    change.content (store.entries change.key)) = mutates
  have start : ∃ begun, runOn (advanceIf mutates) store = (.ok ⟨⟩, begun) ∧
      begun.entries = store.entries ∧ begun.versions = store.versions ∧
      begun.batchReceipts = store.batchReceipts ∧
      begun.revision = store.revision + if mutates then 1 else 0 := by
    cases mutates with
    | false => exact ⟨store, rfl, rfl, rfl, rfl, rfl⟩
    | true => exact ⟨store.advance, rfl, rfl, rfl, rfl, rfl⟩
  obtain ⟨begun, advanced, entries, versions, receipts, revision⟩ := start
  have applies : ∃ results after, runOn (changes.mapM (backend.applyChange store.entries
      begun.storeRevision clock)) begun = (.ok results, after) ∧
      Applied backend id store.entries clock changes begun after := applyChanges_ends
  obtain ⟨results, after, loop, applied⟩ := applies
  have kept : ∃ result last, runOn (do
        let result : StorageBatchResult :=
          ⟨begun.storeRevision, true, results, requestDigest, idempotencyKey⟩
        keepReceipt idempotencyKey result
        return result) after = (.ok result, last) ∧ result.requestDigest = requestDigest ∧
      last.entries = after.entries ∧ last.versions = after.versions ∧
      last.revision = after.revision ∧
      last.batchReceipts = after.withReceipt idempotencyKey result := by
    cases idempotencyKey with
    | none => exact ⟨_, after, rfl, rfl, rfl, rfl, rfl, rfl⟩
    | some key => exact ⟨_, _, rfl, rfl, rfl, rfl, rfl, rfl⟩
  obtain ⟨result, last, finished, digest, lastEntries, lastVersions, lastRevision,
    lastReceipts⟩ := kept
  refine ⟨result, last, ?_, ?_, digest, ?_⟩
  · rw [runOn_bind_of_ok advanced, runOn_bind_get, runOn_bind_of_ok loop]
    exact finished
  · have begunVersioned : Versioned begun := by
      constructor
      · rw [versions]
        exact versioned.numbered
      · rw [entries, versions]
        exact versioned.current
    have current : ∀ change ∈ changes, store.entries change.key = begun.entries change.key := by
      rw [entries]
      exact fun _ _ => rfl
    have plain : ∀ store : AssetStore,
        (id store).entries = store.entries ∧ (id store).versions = store.versions :=
      fun _ => ⟨rfl, rfl⟩
    have numbered := applied.versioned plain begunVersioned apart current
    have grown := applied.grows plain
    refine ⟨apart, checked, ⟨?_, ?_⟩, ?_, ?_, ?_⟩
    · rw [lastVersions]
      exact numbered.numbered
    · rw [lastEntries, lastVersions]
      exact numbered.current
    · rw [Grows, lastVersions, ← versions]
      exact grown
    · cases mutates with
      | false =>
        have same : after = begun := by
          apply applied.quiet
          intro change member
          rw [any_eq_false] at mutated
          simpa using mutated change member
        refine .inl ⟨?_, ?_, ?_⟩
        · rw [lastEntries, same, entries]
        · rw [lastVersions, same, versions]
        · rw [lastRevision, same, revision]
          rfl
      | true =>
        obtain ⟨key, changed⟩ := applied.changed plain (by simpa using mutated)
        refine .inr ⟨⟨key, ?_⟩, ?_⟩
        · rwa [lastVersions, ← versions]
        · rw [lastRevision, applied.revision.1, revision]
          rfl
    · intro key
      have shown := applied.summary plain begunVersioned apart current key
      rw [AssetStore.summary, lastEntries]
      rw [AssetStore.summary] at shown
      rw [shown, AssetStore.summary, entries]
      rfl
  · unfold AssetStore.withReceipt at lastReceipts ⊢
    rw [lastReceipts, applied.revision.2, receipts]

theorem applyBatch_ends (versioned : Versioned store) :
    (∃ raised, runOn (backend.applyBatch changes expectedRevision idempotencyKey requestDigest
        clock) store = (.error raised, store)) ∨
    (∃ receipt, idempotencyKey.bind store.batchReceipts = some receipt ∧
      receipt.requestDigest = requestDigest ∧ runOn (backend.applyBatch changes expectedRevision
        idempotencyKey requestDigest clock) store = (.ok receipt, store)) ∨
    backend.writable = true ∧ idempotencyKey.bind store.batchReceipts = none ∧
      AssetBackend.validateBatchReceiptIdentity idempotencyKey requestDigest = .ok () ∧
      ∃ result after, runOn (backend.applyBatch changes expectedRevision idempotencyKey
        requestDigest clock) store = (.ok result, after) ∧
      BatchApplied backend changes clock store after ∧ result.requestDigest = requestDigest ∧
      after.batchReceipts = store.withReceipt idempotencyKey result := by
  rw [applyBatch]
  cases identity : validateBatchReceiptIdentity idempotencyKey requestDigest with
  | error raised => exact .inl ⟨raised, rfl⟩
  | ok =>
  rw [runOn_ok_bind]
  cases writable : backend.requireWritable with
  | error raised => exact .inl ⟨raised, rfl⟩
  | ok =>
  rw [runOn_ok_bind, runOn_bind_get]
  cases found : idempotencyKey.bind store.batchReceipts with
  | some receipt =>
    dsimp only
    by_cases same : receipt.requestDigest = requestDigest
    case pos =>
      refine .inr (.inl ⟨receipt, rfl, same, ?_⟩)
      rw [refuse_of_not (not_not.mpr same), runOn_ok_bind]
      rfl
    case neg =>
      refine .inl ⟨Raised.ai .idempotencyConflict, ?_⟩
      rw [refuse_of same]
      rfl
  | none =>
    rw [requireWritable, refuse_eq_ok, Bool.not_eq_false] at writable
    cases applyFresh_ends versioned with
    | inl raises => exact .inl raises
    | inr applies => exact .inr (.inr ⟨writable, rfl, rfl, applies⟩)

open Library.Machine

inductive AssetCall
  | put (key : AssetKey) (value : Bytes) (expectedRevision : Option Nat)
      (metadata : Option JsonMapping) (now : Time)
  | delete (key : AssetKey) (expectedRevision : Option Nat) (metadata : Option JsonMapping)
      (now : Time)
  | reset (key : AssetKey) (expectedRevision : Option Nat) (metadata : Option JsonMapping)
      (now : Time)
  | applyBatch (changes : List StorageChange)
      (expectedRevision idempotencyKey requestDigest : Option String) (clock : AssetKey → Time)

inductive AssetAnswer
  | result (result : StorageResult)
  | batch (result : StorageBatchResult)

def AssetCall.run (backend : AssetBackend) : AssetCall → Versioning AssetAnswer
  | .put key value expectedRevision metadata now =>
    .result <$> backend.put key value expectedRevision metadata now
  | .delete key expectedRevision metadata now =>
    .result <$> backend.delete key expectedRevision metadata now
  | .reset key expectedRevision metadata now =>
    .result <$> backend.reset key expectedRevision metadata now
  | .applyBatch changes expectedRevision idempotencyKey requestDigest clock =>
    .batch <$> backend.applyBatch changes expectedRevision idempotencyKey requestDigest clock

structure AssetLabel where
  call : AssetCall
  answer : Except Raised AssetAnswer

def assetMachine (backend : AssetBackend) : Machine AssetStore AssetLabel where
  initial store := store = {}
  step store label after := runOn (label.call.run backend) store = (label.answer, after)

/-- No single change that would write carries metadata with an empty key. -/
def Timely (backend : AssetBackend) (store : AssetStore) (label : AssetLabel) : Prop :=
  match label.call with
  | .put key value expectedRevision metadata _ =>
    ¬RefusesLate backend store .put key value expectedRevision metadata
  | .delete key expectedRevision metadata _ =>
    ¬RefusesLate backend store .delete key [] expectedRevision metadata
  | .reset key expectedRevision metadata _ =>
    ¬RefusesLate backend store .reset key [] expectedRevision metadata
  | .applyBatch .. => True

variable {result : StorageBatchResult}

theorem receipts_kept {idempotencyKey : Option String}
    (fresh : idempotencyKey.bind store.batchReceipts = none)
    (receipts : after.batchReceipts = store.withReceipt idempotencyKey result) (key : String)
    (receipt : StorageBatchResult) (stored : store.batchReceipts key = some receipt) :
    after.batchReceipts key = some receipt := by
  rw [receipts]
  unfold AssetStore.withReceipt
  cases idempotencyKey with
  | none => exact stored
  | some other =>
    have different : key ≠ other := by
      rintro rfl
      cases stored.symm.trans fresh
    exact (update_of_ne different _ _).trans stored

theorem runOn_answered {α : Type} {action : Versioning α} {wrap : α → AssetAnswer}
    {answer : Except Raised AssetAnswer} (ran : runOn (wrap <$> action) store = (answer, after)) :
    ∃ outcome, runOn action store = (outcome, after) ∧ answer = outcome.map wrap := by
  rw [runOn_map] at ran
  generalize runOn action store = found at ran ⊢
  obtain ⟨outcome, last⟩ := found
  cases ran
  exact ⟨outcome, rfl, rfl⟩

theorem asset_step {label : AssetLabel}
    (step : ((assetMachine backend).restrict (Timely backend)).step store label after)
    (versioned : Versioned store) :
    Sound store after ∧ (∀ raised, label.answer = .error raised → after = store) := by
  obtain ⟨call, answer⟩ := label
  obtain ⟨ran, timely⟩ := step
  have single : ∀ {operation : StorageOperation} {key : AssetKey} {value : Bytes}
      {expected : Option Nat} {metadata : Option JsonMapping} {now : Time}
      {action : Versioning StorageResult},
      runOn (AssetAnswer.result <$> action) store = (answer, after) →
      ChangeEnds backend store operation key value expected metadata now (runOn action store) →
      ¬RefusesLate backend store operation key value expected metadata →
      Sound store after ∧ (∀ raised, answer = .error raised → after = store) := by
    intro operation key value expected metadata now action answered ends prompt
    obtain ⟨outcome, acted, same⟩ := runOn_answered answered
    rw [acted] at ends
    obtain ⟨sound, quiet⟩ := ends.sound versioned prompt
    rw [same]
    refine ⟨sound, fun raised failed => ?_⟩
    cases outcome with
    | ok => cases failed
    | error other => exact quiet other rfl
  cases call with
  | put => exact single ran put_ends timely
  | delete => exact single ran delete_ends timely
  | reset => exact single ran reset_ends timely
  | applyBatch =>
    obtain ⟨outcome, acted, same⟩ := runOn_answered ran
    cases same
    rcases applyBatch_ends versioned with ⟨raised, ends⟩ | ⟨receipt, _, _, ends⟩ |
      ⟨_, fresh, _, result, last, ends, applied, _, receipts⟩
    · cases acted.symm.trans ends
      exact ⟨.refl versioned, fun _ _ => rfl⟩
    · cases acted.symm.trans ends
      exact ⟨.refl versioned, fun _ _ => rfl⟩
    · cases acted.symm.trans ends
      exact ⟨⟨applied.versioned, applied.grows, applied.accounts, receipts_kept fresh receipts⟩,
        nofun⟩

theorem asset_run {labels : List AssetLabel}
    (run : Run ((assetMachine backend).restrict (Timely backend)) store labels after)
    (versioned : Versioned store) : Versioned after ∧ Grows store after ∧
      ∀ key receipt, store.batchReceipts key = some receipt →
        after.batchReceipts key = some receipt := by
  induction run with
  | nil => exact ⟨versioned, .refl _, fun _ _ stored => stored⟩
  | cons step _ ih =>
    obtain ⟨sound, _⟩ := asset_step step versioned
    obtain ⟨last, grows, receipts⟩ := ih sound.versioned
    exact ⟨last, sound.grows.trans grows,
      fun key receipt stored => receipts key receipt (sound.receipts key receipt stored)⟩

theorem BatchApplied.oneByOne (applied : BatchApplied backend changes clock store after)
    (writable : backend.writable = true) (versioned : Versioned store) :
    ∃ results alone, runOn (backend.oneByOne clock changes) store = (.ok results, alone) ∧
      ∀ key, after.summary key = alone.summary key := by
  obtain ⟨results, alone, ran, singles⟩ := oneByOne_ends writable applied.apart
    (fun _ _ => rfl) applied.checked
  refine ⟨results, alone, ran, fun key => ?_⟩
  rw [applied.summary, singles.summary advance_plain versioned applied.apart fun _ _ => rfl]

variable {digest key : String}

theorem repeated_batch {receipt : StorageBatchResult}
    (stored : store.batchReceipts key = some receipt) (same : receipt.requestDigest = some digest)
    (writable : backend.writable = true)
    (identity : AssetBackend.validateBatchReceiptIdentity (some key) (some digest) = .ok ()) :
    runOn (backend.applyBatch changes expectedRevision (some key) (some digest) clock) store =
      (.ok receipt, store) := by
  have opened : backend.requireWritable = .ok () := by
    rw [requireWritable, writable]
    exact refuse_of_not Bool.noConfusion
  rw [applyBatch, identity, runOn_ok_bind, opened, runOn_ok_bind, runOn_bind_get,
    Option.bind_some, stored]
  dsimp only
  rw [refuse_of_not (not_not.mpr same), runOn_ok_bind]
  rfl

theorem returned_batch (versioned : Versioned store)
    (ran : runOn (backend.applyBatch changes expectedRevision (some key) (some digest) clock)
      store = (.ok result, after)) :
    after.batchReceipts key = some result ∧ result.requestDigest = some digest ∧
      backend.writable = true ∧
      AssetBackend.validateBatchReceiptIdentity (some key) (some digest) = .ok () := by
  have checked : backend.writable = true ∧
      validateBatchReceiptIdentity (some key) (some digest) = .ok () := by
    rw [applyBatch] at ran
    cases identity : validateBatchReceiptIdentity (some key) (some digest) with
    | error raised =>
      rw [identity] at ran
      cases ran
    | ok =>
      rw [identity, runOn_ok_bind] at ran
      cases writable : backend.requireWritable with
      | error raised =>
        rw [writable] at ran
        cases ran
      | ok =>
        rw [requireWritable, refuse_eq_ok, Bool.not_eq_false] at writable
        exact ⟨writable, rfl⟩
  rcases applyBatch_ends versioned with ⟨raised, ends⟩ | ⟨receipt, stored, same, ends⟩ |
    ⟨_, _, _, other, last, ends, _, same, receipts⟩
  · cases ran.symm.trans ends
  · cases ran.symm.trans ends
    exact ⟨stored, same, checked⟩
  · cases ran.symm.trans ends
    refine ⟨?_, same, checked⟩
    rw [receipts]
    exact update_self _ _ _

/-- Where no single change carries metadata with an empty key: every history is numbered from
one on with the current entry last, past revisions are read as they were, only changes move the
store revision and by one, a batch leaves what its changes would leave one by one or raises and
leaves all alone, and a repeated batch returns its first result. -/
theorem asset_histories_are_sound {earlier later : List AssetLabel} {label : AssetLabel}
    {next last : AssetStore}
    (before : Run ((assetMachine backend).restrict (Timely backend)) {} earlier store)
    (step : ((assetMachine backend).restrict (Timely backend)).step store label next)
    (following : Run ((assetMachine backend).restrict (Timely backend)) next later last) :
    Versioned store ∧ (∀ key entry, store.entries key = some entry →
      last.getAtRevision key entry.1.revision = store.get key) ∧
    Accounts store next ∧ (∀ raised, label.answer = .error raised → next = store) ∧
    (∀ changes expectedRevision idempotencyKey requestDigest clock result,
      label = ⟨.applyBatch changes expectedRevision idempotencyKey requestDigest clock,
        .ok (.batch result)⟩ → idempotencyKey.bind store.batchReceipts = none →
      ∃ results alone, runOn (backend.oneByOne clock changes) store = (.ok results, alone) ∧
        ∀ key, next.summary key = alone.summary key) ∧
    (∀ changes expectedRevision key digest clock result,
      label = ⟨.applyBatch changes expectedRevision (some key) (some digest) clock,
        .ok (.batch result)⟩ →
      ∀ again revision time, runOn (backend.applyBatch again revision (some key) (some digest)
        time) last = (.ok result, last)) := by
  obtain ⟨versioned, _, _⟩ := asset_run before versioned_empty
  obtain ⟨sound, quiet⟩ := asset_step step versioned
  obtain ⟨numbered, grows, receipts⟩ := asset_run following sound.versioned
  refine ⟨versioned, ?_, sound.accounts, quiet, ?_, ?_⟩
  · exact fun key entry stored => versioned.getAtRevision numbered (sound.grows.trans grows) stored
  · rintro changes expectedRevision idempotencyKey requestDigest clock result rfl fresh
    obtain ⟨outcome, ran, answered⟩ := runOn_answered step.1
    rcases applyBatch_ends versioned with ⟨raised, ends⟩ | ⟨receipt, stored, _, _⟩ |
      ⟨writable, _, _, _, _, ends, applied, _⟩
    · cases ran.symm.trans ends
      cases answered
    · cases fresh.symm.trans stored
    · cases ran.symm.trans ends
      exact applied.oneByOne writable versioned
  · rintro changes expectedRevision key digest clock result rfl again revision time
    obtain ⟨outcome, ran, answered⟩ := runOn_answered step.1
    cases outcome with
    | error raised => cases answered
    | ok value =>
      cases answered
      obtain ⟨stored, same, writable, identity⟩ := returned_batch versioned ran
      exact repeated_batch (receipts key result stored) same writable identity

def sampleBackend : AssetBackend where
  writable := true
  digest value := String.ofList (value.map fun byte => Char.ofNat byte.toNat)

def sampleKey : AssetKey := ⟨"skill", "a"⟩

def samplePut : AssetCall := .put sampleKey [1] none (some [("mode", .int 1)]) 0

def sampleStored : AssetStore := (runOn (samplePut.run sampleBackend) {}).2

def sampleBatch : AssetCall :=
  .applyBatch [⟨.delete, sampleKey, none, some 1, [], by decide, by decide⟩] (some "1")
    (some "k") (some "aaaaaaaaaaaaaaaaaaaaaaaaaaaaaaaaaaaaaaaaaaaaaaaaaaaaaaaaaaaaaaaa") fun _ => 1

def sampleDeleted : AssetStore := (runOn (sampleBatch.run sampleBackend) sampleStored).2

/-- A file is put and deleted by a batch; its first revision can still be read. -/
theorem sample_asset_history :
    sampleDeleted.getAtRevision sampleKey 1 = sampleStored.get sampleKey ∧
      sampleStored.get sampleKey = some [1] ∧ sampleDeleted.get sampleKey = none ∧
      Accounts sampleStored sampleDeleted ∧ sampleDeleted.revision = 2 := by
  have put : Run ((assetMachine sampleBackend).restrict (Timely sampleBackend)) {}
      [⟨samplePut, (runOn (samplePut.run sampleBackend) {}).1⟩] sampleStored := by
    refine .single ⟨rfl, ?_⟩
    rintro ⟨_, _, fields, given, unnamed⟩
    cases given
    cases unnamed
  have deleted : ((assetMachine sampleBackend).restrict (Timely sampleBackend)).step sampleStored
      ⟨sampleBatch, (runOn (sampleBatch.run sampleBackend) sampleStored).1⟩ sampleDeleted :=
    ⟨rfl, trivial⟩
  have sound := asset_histories_are_sound put deleted (.nil _)
  exact ⟨sound.2.1 sampleKey _ rfl, by decide +kernel, by decide +kernel, sound.2.2.1,
    by decide +kernel⟩

/-- A put whose metadata has an empty key raises, writes nothing, and moves the store revision. -/
theorem refused_metadata_moves_revision : ∃ raised next, (assetMachine sampleBackend).step {}
        ⟨.put sampleKey [1] none (some [("", .int 1)]) 0, .error raised⟩ next ∧
      next ≠ {} ∧ (∀ key, next.versions key = ({} : AssetStore).versions key) ∧
      next.revision = ({} : AssetStore).revision + 1 ∧ ¬Accounts {} next := by
  refine ⟨_, _, rfl, ?_, fun _ => rfl, rfl, ?_⟩
  · exact fun same => absurd (congrArg AssetStore.revision same) (by decide)
  · intro accounts
    cases accounts with
    | inl rests => exact absurd rests.2.2 (by decide)
    | inr changes =>
      obtain ⟨⟨key, changed⟩, _⟩ := changes
      exact changed rfl

end Linktools.Asset
