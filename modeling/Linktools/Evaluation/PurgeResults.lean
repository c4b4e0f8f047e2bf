import Linktools.Evaluation.LaunchControl
import Linktools.Transcript.AppendedReads

namespace Linktools.Evaluation

open Linktools.Core Library List
open Transcript (PersistenceDomain)

structure ObjectRef where
  storeId : String
  key : String
  digest : String
  size : Nat
deriving DecidableEq

abbrev ObjectItem := PersistenceDomain × ObjectRef

/-- An evidence bundle, whose output, trace and attachments stand as one canonical text. -/
structure EvidenceBundle where
  ref : EvidenceRef
  trial : TargetTrialRef
  content : String
deriving DecidableEq

structure EvaluationReport where
  reportId : String
  experimentId : String
  content : String
deriving DecidableEq

/-- A comparison of two slots, with the experiments that the scores of its cutoff come from. -/
structure ComparisonReport where
  reportId : String
  baseline : String
  candidate : String
  scoring : List String
  content : String
deriving DecidableEq

structure CaseRef where
  datasetId : String
  caseId : String
  revision : Int
deriving DecidableEq

structure EvaluationDatasetRecord where
  ref : DatasetRef
  orderedCaseRefs : List CaseRef
  contentExpiresAt : Option Time

structure EvaluationCaseRecord where
  ref : CaseRef
  contentExpiresAt : Option Time

inductive ContentKey
  | evidence (evidenceId : String)
  | report (reportId : String)
  | comparison (reportId : String)
  | dataset (ref : DatasetRef)
  | case (ref : CaseRef)
deriving DecidableEq

inductive EvaluationContent
  | evidence (bundle : EvidenceBundle)
  | report (report : EvaluationReport)
  | comparison (report : ComparisonReport)
deriving DecidableEq

namespace EvaluationContent

def key : EvaluationContent → ContentKey
  | .evidence bundle => .evidence bundle.ref.evidenceId
  | .report value => .report value.reportId
  | .comparison value => .comparison value.reportId

def Belongs (experimentId : String) : EvaluationContent → Prop
  | .evidence bundle => bundle.trial.targetExperimentId = experimentId
  | .report value => value.experimentId = experimentId
  | .comparison value => experimentId ∈ value.baseline :: value.candidate :: value.scoring

instance (experimentId : String) (content : EvaluationContent) :
    Decidable (content.Belongs experimentId) := by
  cases content <;> unfold Belongs <;> infer_instance

def digest (manifestDigest : String) : EvaluationContent → String
  | .evidence bundle => bundle.ref.digest
  | .report _ => manifestDigest
  | .comparison _ => manifestDigest

end EvaluationContent

structure EvaluationTombstone where
  evaluationId : String
  ownerPrincipalId : String
  requestDigest : String
  idempotencyKeyDigest : String
  manifestDigest : String
  deletedAt : Time
deriving DecidableEq

structure EvaluationContentTombstone where
  key : ContentKey
  ownerPrincipalId : String
  digest : String
  deletedAt : Time
deriving DecidableEq

structure EvaluationCleanupRecord where
  evaluationId : String
  ownerPrincipalId : String
  objects : List ObjectItem
  createdAt : Time

structure EvaluationStore where
  records : List EvaluationRecord := []
  contents : List EvaluationContent := []
  datasets : List EvaluationDatasetRecord := []
  cases : List EvaluationCaseRecord := []
  tombstones : List EvaluationTombstone := []
  contentTombstones : List EvaluationContentTombstone := []
  cleanups : List EvaluationCleanupRecord := []

structure EvaluationStore.Keyed (store : EvaluationStore) : Prop where
  records : (store.records.map (·.experimentId)).Nodup
  contents : (store.contents.map (·.key)).Nodup
  cleanups : (store.cleanups.map (·.evaluationId)).Nodup

namespace EvaluationStore

variable (store : EvaluationStore)

def record (experimentId : String) : Option EvaluationRecord :=
  rowAt (·.experimentId) store.records experimentId

def tombstone (experimentId : String) : Option EvaluationTombstone :=
  rowAt (·.evaluationId) store.tombstones experimentId

def content (key : ContentKey) : Option EvaluationContent :=
  rowAt (·.key) store.contents key

def contentTombstone (key : ContentKey) : Option EvaluationContentTombstone :=
  rowAt (·.key) store.contentTombstones key

def cleanup (experimentId : String) : Option EvaluationCleanupRecord :=
  rowAt (·.evaluationId) store.cleanups experimentId

/-- `_put` of an evidence bundle or of a report. -/
def putContent (value : EvaluationContent) : Except Raised (EvaluationStore × EvaluationContent) :=
  do
  refuse (store.contentTombstone value.key ≠ none) (.ai .evaluationEvidenceUnavailable)
  match store.content value.key with
  | some existing => do
    refuse (existing ≠ value) (.ai .idempotencyConflict)
    return (store, existing)
  | none => return ({ store with contents := store.contents ++ [value] }, value)

/-- `_put` of an experiment. -/
def putRecord (value : EvaluationRecord) : Except Raised (EvaluationStore × EvaluationRecord) := do
  refuse (store.tombstone value.experimentId ≠ none) (.ai .evaluationEvidenceUnavailable)
  match store.record value.experimentId with
  | some existing =>
    if existing = value then return (store, existing) else .error (.ai .idempotencyConflict)
  | none => return ({ store with records := store.records ++ [value] }, value)

/-- `_get` of an evidence bundle or of a report. -/
def getContent (key : ContentKey) : Except Raised (Option EvaluationContent) :=
  match store.content key with
  | some value => return some value
  | none => do
    refuse (store.contentTombstone key ≠ none) (.ai .evaluationEvidenceUnavailable)
    return none

def get (experimentId : String) : Except Raised (Option EvaluationRecord) :=
  match store.record experimentId with
  | some value => return some value
  | none => do
    refuse (store.tombstone experimentId ≠ none) (.ai .evaluationEvidenceUnavailable)
    return none

def getReport (reportId : String) : Except Raised (Option EvaluationContent) := do
  match ← store.getContent (.report reportId) with
  | some report => return some report
  | none => store.getContent (.comparison reportId)

/-- `_put` of the tombstone of content. -/
def putContentTombstone (value : EvaluationContentTombstone) : Except Raised EvaluationStore :=
  match store.contentTombstone value.key with
  | some existing => do
    refuse (existing ≠ value) (.ai .idempotencyConflict)
    return store
  | none => return { store with contentTombstones := store.contentTombstones ++ [value] }

/-- `_put` of the tombstone of an experiment. -/
def putTombstone (value : EvaluationTombstone) : Except Raised EvaluationStore :=
  match store.tombstone value.evaluationId with
  | some existing => do
    refuse (existing ≠ value) (.ai .idempotencyConflict)
    return store
  | none => return { store with tombstones := store.tombstones ++ [value] }

/-- The chain of source experiments, and whether one of them is gone or expired. -/
def sourceChain (now : Time) : Nat → List String → Option String → Except Raised Bool
  | _, _, none => return false
  | 0, _, some _ => .error .integrity
  | steps + 1, seen, some sourceId => do
    refuse (sourceId ∈ seen) .integrity
    match store.record sourceId with
    | none => return true
    | some source =>
      if source.contentDeletedAt ≠ none ∨ EvaluationRecord.expired source.contentExpiresAt now ∨
          EvaluationRecord.expired source.metadataExpiresAt now then return true
      else sourceChain now steps (sourceId :: seen) source.manifest.sourceExperimentId

def caseExpired (now : Time) (ref : CaseRef) : Bool :=
  match rowAt (·.ref) store.cases ref with
  | none => store.contentTombstone (.case ref) ≠ none
  | some case => decide (EvaluationRecord.expired case.contentExpiresAt now)

def datasetExpired (now : Time) (ref : DatasetRef) : Bool :=
  match rowAt (·.ref) store.datasets ref with
  | none => store.contentTombstone (.dataset ref) ≠ none
  | some dataset =>
    decide (EvaluationRecord.expired dataset.contentExpiresAt now) ||
      dataset.orderedCaseRefs.any (store.caseExpired now)

/-- `_source_expired`, whose chain visits no stored experiment twice. -/
def sourceExpired (record : EvaluationRecord) (now : Time) : Except Raised Bool := do
  let gone ← store.sourceChain now (store.records.length + 1) [record.experimentId]
    record.manifest.sourceExperimentId
  return gone || store.datasetExpired now record.manifest.dataset

variable {store} {now : Time} {steps later : Nat} {seen : List String} {source : Option String}

/-- The steps do not run out: each of them sees one more of the stored experiments. -/
theorem sourceChain_mono
    (left : (store.records.filter fun record => record.experimentId ∉ seen).length < steps)
    (more : steps ≤ later) :
    store.sourceChain now later seen source = store.sourceChain now steps seen source := by
  induction steps generalizing later seen source with
  | zero => exact absurd left (Nat.not_lt_zero _)
  | succ steps ih =>
    obtain ⟨later, rfl⟩ := Nat.exists_eq_add_of_le' (le_trans (Nat.succ_pos steps) more)
    rw [sourceChain.eq_def, sourceChain.eq_def]
    cases source with
    | none => rfl
    | some sourceId =>
      dsimp only
      by_cases again : sourceId ∈ seen
      case pos => rw [refuse_of again, error_bind, error_bind]
      case neg =>
        rw [refuse_of_not again, ok_bind, ok_bind]
        cases found : store.record sourceId with
        | none => rfl
        | some source =>
          dsimp only
          split
          case isTrue => rfl
          case isFalse =>
            refine ih (Nat.lt_of_lt_of_le ?_ (Nat.le_of_lt_succ left)) (Nat.le_of_succ_le_succ more)
            have fewer : (store.records.filter fun record =>
                record.experimentId ∉ sourceId :: seen) = (store.records.filter fun record =>
                record.experimentId ∉ seen).filter (·.experimentId ≠ sourceId) := by
              simp [filter_filter]
            have own : source.experimentId = sourceId := rowAt_key found
            rw [fewer, length_filter_lt_length_iff_exists]
            refine ⟨source, mem_filter.mpr ⟨rowAt_mem found, ?_⟩, ?_⟩
            · simpa [own] using again
            · simp [own]

theorem sourceChain_of_length_lt (enough : store.records.length < steps) :
    store.sourceChain now steps seen source =
      store.sourceChain now (store.records.length + 1) seen source :=
  sourceChain_mono (Nat.lt_succ_of_le (length_filter_le _ _)) enough

end EvaluationStore

inductive Holder
  | record (record : EvaluationRecord)
  | content (content : EvaluationContent)

/-- The objects that the encoding of a row names, in the order of the walk. -/
abbrev HeldObjects := Holder → Except Raised (List ObjectItem)

inductive ContentKind
  | evidence
  | report
  | comparison
deriving DecidableEq

def EvaluationContent.kind : EvaluationContent → ContentKind
  | .evidence _ => .evidence
  | .report _ => .report
  | .comparison _ => .comparison

def ScoreValue.numerical : ScoreValue → ScoreValue
  | .number value => .number value
  | .notApplicable _ => .notApplicable "evidence_deleted"

def ScoreBundle.numerical (score : ScoreBundle) : ScoreBundle where
  dimensions := score.dimensions.map fun item => (item.1, item.2.numerical)

def ScoreAttemptView.numerical (attempt : ScoreAttemptView) : ScoreAttemptView :=
  { attempt with
    score := attempt.score.map ScoreBundle.numerical
    evidenceRef := none
    reason := attempt.reason.map fun _ => "evidence_deleted" }

namespace EvaluationManifest

variable (manifest : EvaluationManifest)

def targetTrials : List String :=
  match manifest.kind with
  | .experiment => manifest.trials
  | .scoreOnly => manifest.sourceTrials.map (·.trialId)

def slots : List String :=
  manifest.trials.map ("target:" ++ ·) ++ manifest.targetTrials.flatMap fun trial =>
      manifest.scorers.map fun scorer => "score:" ++ trial ++ ":" ++ scorer

def withoutTemplates : EvaluationManifest :=
  { manifest with
    candidates := manifest.candidates.map fun candidate =>
      { candidate with graphTemplate := candidate.graphTemplate.map fun _ => none } }

end EvaluationManifest

def EvaluationRecord.erased (record : EvaluationRecord) (now : Time) : EvaluationRecord :=
  { record with
    manifest := record.manifest.withoutTemplates
    ownedInputCaptures := []
    intents := []
    evidence := []
    scores := record.scores.map ScoreAttemptView.numerical
    humanDecisions := record.humanDecisions.map fun decision =>
      { decision with score := decision.score.numerical }
    dispositions := record.manifest.slots.map fun slot =>
      ⟨slot, .permanentUnavailable, "evidence_deleted", now⟩
    contentDeletedAt := some now
    revision := record.revision + 1
    updatedAt := now
    live := nofun }

def domainValue : PersistenceDomain → String
  | .conversation => "conversation"
  | .execution => "execution"
  | .memory => "memory"
  | .artifact => "artifact"
  | .task => "task"
  | .evaluation => "evaluation"
  | .trace => "trace"
  | .checkpoint => "checkpoint"

def itemBefore (left right : ObjectItem) : Bool :=
  if domainValue left.1 ≠ domainValue right.1 then domainValue left.1 < domainValue right.1
  else if left.2.key ≠ right.2.key then left.2.key < right.2.key
  else left.2.digest ≤ right.2.digest

def sortedObjects (objects : List ObjectItem) : List ObjectItem :=
  objects.dedup.insertionSort fun left right => itemBefore left right

theorem mem_sortedObjects : item ∈ sortedObjects objects ↔ item ∈ objects := by
  rw [sortedObjects, mem_insertionSort, mem_dedup]

namespace EvaluationStore

variable (store : EvaluationStore)

def belonging (experimentId : String) : List EvaluationContent :=
  [ContentKind.evidence, .report, .comparison].flatMap fun kind =>
    store.contents.filter fun content => content.kind = kind ∧ content.Belongs experimentId

def removeContent (held : HeldObjects) (record : EvaluationRecord) (now : Time) :
    List EvaluationContent → EvaluationStore × List ObjectItem →
      Except Raised (EvaluationStore × List ObjectItem)
  | [], state => return state
  | content :: rest, (store, objects) => do
    let found ← held (.content content)
    let deleted := { store with
      contents := store.contents.filter fun value => value.key ≠ content.key }
    let marked ← deleted.putContentTombstone
      ⟨content.key, record.manifest.principalId, content.digest record.manifestDigest, now⟩
    removeContent held record now rest (marked, objects ++ found)

def pending (experimentId : String) : List ObjectItem :=
  match store.cleanup experimentId with
  | none => []
  | some cleanup => cleanup.objects

def metadataDue (record : EvaluationRecord) (now : Time) : Prop :=
  EvaluationRecord.expired record.metadataExpiresAt now

instance (record : EvaluationRecord) (now : Time) : Decidable (metadataDue record now) := by
  unfold metadataDue
  infer_instance

def contentDue (record : EvaluationRecord) (now : Time) : Except Raised Bool :=
  if record.contentDeletedAt ≠ none then return false
  else do
    let inherited ← store.sourceExpired record now
    return inherited || decide (EvaluationRecord.expired record.contentExpiresAt now)

/-- The record goes when its metadata expired, and else stays without content. -/
def retire (record : EvaluationRecord) (now : Time) : Except Raised EvaluationStore :=
  if metadataDue record now then
    { store with
      records := store.records.filter fun value =>
        value.experimentId ≠ record.experimentId }.putTombstone
      ⟨record.experimentId, record.manifest.principalId, record.requestDigest,
        record.idempotencyKeyDigest, record.manifestDigest, now⟩
  else
    return { store with
      records := rewriteAt (·.experimentId) store.records record.experimentId (record.erased now) }

def putCleanup (value : EvaluationCleanupRecord) : EvaluationStore :=
  match store.cleanup value.evaluationId with
  | none => { store with cleanups := store.cleanups ++ [value] }
  | some _ =>
    { store with
      cleanups := rewriteAt (·.evaluationId) store.cleanups value.evaluationId value }

def cleanupAfter (record : EvaluationRecord) (now : Time) (objects : List ObjectItem) :
    EvaluationCleanupRecord where
  evaluationId := record.experimentId
  ownerPrincipalId := record.manifest.principalId
  objects := sortedObjects objects
  createdAt :=
    match store.cleanup record.experimentId with
    | none => now
    | some cleanup => cleanup.createdAt

def removeExperiment (held : HeldObjects) (record : EvaluationRecord) (now : Time)
    (objects : List ObjectItem) : Except Raised (EvaluationStore × List ObjectItem) := do
  refuse (record.gate = .open ∨ ∃ intent ∈ record.intents, intent.released = false) .conflict
  let own ← held (.record record)
  let (removed, found) ← removeContent held record now (store.belonging record.experimentId)
    (store, objects ++ store.pending record.experimentId ++ own)
  let retired ← removed.retire record now
  let cleanup := store.cleanupAfter record now found
  return (retired.putCleanup cleanup, cleanup.objects)

def purge (held : HeldObjects) (experimentId : String) (now : Time)
    (objects : List ObjectItem) : Except Raised (EvaluationStore × List ObjectItem) :=
  match store.record experimentId with
  | none => return (store, store.pending experimentId)
  | some record => do
    let content ← store.contentDue record now
    if metadataDue record now ∨ content = true then
      store.removeExperiment held record now objects
    else return (store, store.pending experimentId)

def acknowledgeCleanup (experimentId : String) (objects : List ObjectItem) : EvaluationStore :=
  match store.cleanup experimentId with
  | none => store
  | some value =>
    let updated := value.objects.filter (· ∉ objects)
    if updated = [] then
      { store with
        cleanups := store.cleanups.filter fun cleanup => cleanup.evaluationId ≠ experimentId }
    else if updated ≠ value.objects then
      { store with
        cleanups := rewriteAt (·.evaluationId) store.cleanups experimentId
          { value with objects := updated } }
    else store

end EvaluationStore

namespace EvaluationStore

variable {held : HeldObjects} {store next : EvaluationStore} {record : EvaluationRecord}
  {now : Time} {experimentId : String} {objects found : List ObjectItem}

theorem mem_belonging {content : EvaluationContent} : content ∈ store.belonging experimentId ↔
      content ∈ store.contents ∧ content.Belongs experimentId := by
  unfold belonging
  rw [mem_flatMap]
  constructor
  · rintro ⟨kind, _, member⟩
    obtain ⟨stored, matched⟩ := mem_filter.mp member
    exact ⟨stored, (of_decide_eq_true matched).2⟩
  · rintro ⟨stored, belongs⟩
    refine ⟨content.kind, ?_, mem_filter.mpr ⟨stored, decide_eq_true ⟨rfl, belongs⟩⟩⟩
    cases content <;> simp [EvaluationContent.kind]

theorem putContentTombstone_ok (put : store.putContentTombstone mark = .ok next) :
    (∃ more, next = { store with contentTombstones := store.contentTombstones ++ more } ∧
      ∀ other ∈ more, other.key = mark.key) ∧ next.contentTombstone mark.key ≠ none := by
  unfold putContentTombstone at put
  cases present : store.contentTombstone mark.key with
  | some existing =>
    rw [present] at put
    obtain ⟨_, _, same⟩ := bind_eq_ok.mp put
    cases pure_eq_ok.mp same
    refine ⟨⟨[], by rw [append_nil], fun _ => nofun⟩, ?_⟩
    rw [present]
    exact nofun
  | none =>
    rw [present] at put
    cases pure_eq_ok.mp put
    refine ⟨⟨[mark], rfl, fun other member => by rw [mem_singleton.mp member]⟩, ?_⟩
    rw [contentTombstone, rowAt_append_self present]
    exact nofun

structure Removed (held : HeldObjects) (removed : List EvaluationContent)
    (store next : EvaluationStore) (objects found : List ObjectItem) : Prop where
  contents : next.contents = store.contents.filter fun value => value.key ∉ removed.map (·.key)
  marks : ∃ more, next.contentTombstones = store.contentTombstones ++ more ∧
    ∀ mark ∈ more, mark.key ∈ removed.map (·.key)
  marked : ∀ content ∈ removed, next.contentTombstone content.key ≠ none
  rest : next = { store with
    contents := next.contents
    contentTombstones := next.contentTombstones }
  found : ∀ item, item ∈ found ↔ item ∈ objects ∨
    ∃ content ∈ removed, ∃ items, held (.content content) = .ok items ∧ item ∈ items

theorem removeContent_ok
    (ran : removeContent held record now removed (store, objects) = .ok (next, found)) :
    Removed held removed store next objects found := by
  induction removed generalizing store objects with
  | nil =>
    cases pure_eq_ok.mp ran
    refine ⟨?_, ⟨[], (append_nil _).symm, fun _ => nofun⟩, fun _ => nofun, rfl, fun item => ?_⟩
    · exact (filter_eq_self.mpr fun _ _ => decide_eq_true not_mem_nil).symm
    · exact ⟨.inl, fun either => either.resolve_right fun ⟨_, impossible, _⟩ =>
        not_mem_nil impossible⟩
  | cons content rest ih =>
    rw [removeContent] at ran
    obtain ⟨items, holds, ran⟩ := bind_eq_ok.mp ran
    obtain ⟨marked, put, ran⟩ := bind_eq_ok.mp ran
    obtain ⟨⟨more, rfl, own⟩, shown⟩ := putContentTombstone_ok put
    obtain ⟨contents, ⟨later, appended, names⟩, marks, frame, items'⟩ := ih ran
    refine ⟨?_, ⟨more ++ later, ?_, ?_⟩, ?_, ?_, fun item => ?_⟩
    · rw [contents, filter_filter]
      apply filter_congr
      intro value _
      simp only [map_cons, mem_cons]
      grind
    · rw [appended, append_assoc]
    · intro mark member
      cases mem_append.mp member with
      | inl first => exact own mark first ▸ mem_cons_self
      | inr last => exact mem_cons_of_mem _ (names mark last)
    · intro value member
      cases mem_cons.mp member with
      | inl first =>
        rw [first, contentTombstone, appended]
        exact rowAt_append_ne_none shown
      | inr last => exact marks value last
    · exact frame
    · rw [items' item, mem_append]
      constructor
      · rintro ((earlier | here) | ⟨value, member, later⟩)
        · exact .inl earlier
        · exact .inr ⟨content, mem_cons_self, items, holds, here⟩
        · exact .inr ⟨value, mem_cons_of_mem _ member, later⟩
      · rintro (earlier | ⟨value, member, others, same, listed⟩)
        · exact .inl (.inl earlier)
        · cases mem_cons.mp member with
          | inl first =>
            rw [first, holds] at same
            cases same
            exact .inl (.inr listed)
          | inr last => exact .inr ⟨value, last, others, same, listed⟩

theorem erased_experimentId (record : EvaluationRecord) (now : Time) :
    (record.erased now).experimentId = record.experimentId := rfl

/-- The record of an experiment that went, or that stays without content. -/
structure Retired (record : EvaluationRecord) (now : Time) (store next : EvaluationStore) :
    Prop where
  due : metadataDue record now →
    next.record record.experimentId = none ∧ next.tombstone record.experimentId ≠ none
  kept : ¬metadataDue record now → next.record record.experimentId = some (record.erased now)
  others : ∀ other, other ≠ record.experimentId → next.record other = store.record other
  marks : ∃ more, next.tombstones = store.tombstones ++ more ∧
    ∀ mark ∈ more, mark.evaluationId = record.experimentId
  keyed : (store.records.map (·.experimentId)).Nodup → (next.records.map (·.experimentId)).Nodup
  rest : next = { store with records := next.records, tombstones := next.tombstones }

theorem putTombstone_ok (put : store.putTombstone mark = .ok next) :
    (∃ more, next = { store with tombstones := store.tombstones ++ more } ∧
      ∀ other ∈ more, other.evaluationId = mark.evaluationId) ∧
      next.tombstone mark.evaluationId ≠ none := by
  unfold putTombstone at put
  cases present : store.tombstone mark.evaluationId with
  | some existing =>
    rw [present] at put
    obtain ⟨_, _, same⟩ := bind_eq_ok.mp put
    cases pure_eq_ok.mp same
    refine ⟨⟨[], by rw [append_nil], fun _ => nofun⟩, ?_⟩
    rw [present]
    exact nofun
  | none =>
    rw [present] at put
    cases pure_eq_ok.mp put
    refine ⟨⟨[mark], rfl, fun other member => by rw [mem_singleton.mp member]⟩, ?_⟩
    rw [tombstone, rowAt_append_self present]
    exact nofun

theorem retire_ok (present : store.record record.experimentId = some record)
    (ran : store.retire record now = .ok next) : Retired record now store next := by
  unfold retire at ran
  split at ran
  case isTrue due =>
    obtain ⟨⟨more, rfl, own⟩, shown⟩ := putTombstone_ok ran
    refine ⟨fun _ => ⟨rowAt_filter_self, shown⟩, fun fresh => absurd due fresh,
      fun other different => rowAt_filter_of_ne different, ⟨more, rfl, own⟩,
      fun keyed => keyed.sublist (filter_sublist.map _), rfl⟩
  case isFalse fresh =>
    cases pure_eq_ok.mp ran
    refine ⟨fun due => absurd due fresh, fun _ => ?_, fun other different => ?_,
      ⟨[], (append_nil _).symm, by simp⟩, fun keyed => ?_, rfl⟩
    · exact rowAt_rewriteAt_self _ rfl (rowAt_isSome_iff.mp ⟨record, present⟩)
    · exact rowAt_rewriteAt_of_ne rfl different
    · dsimp only
      rw [map_key_rewriteAt (erased_experimentId record now)]
      exact keyed

theorem putCleanup_spec (store : EvaluationStore) (value : EvaluationCleanupRecord) :
    (store.putCleanup value).cleanup value.evaluationId = some value ∧
      (∀ other, other ≠ value.evaluationId →
        (store.putCleanup value).cleanup other = store.cleanup other) ∧
      ((store.cleanups.map (·.evaluationId)).Nodup →
        ((store.putCleanup value).cleanups.map (·.evaluationId)).Nodup) ∧ store.putCleanup value =
        { store with cleanups := (store.putCleanup value).cleanups } := by
  unfold putCleanup
  cases present : store.cleanup value.evaluationId with
  | none =>
    refine ⟨rowAt_append_self present, fun other different => ?_, fun keyed => ?_, rfl⟩
    · exact rowAt_append_of_ne fun added member => by
        rw [mem_singleton.mp member]
        exact different.symm
    · refine nodup_map_append keyed fun other member same => ?_
      exact rowAt_eq_none_iff.mp present (mem_map.mpr ⟨other, member, same⟩)
  | some existing =>
    refine ⟨?_, fun other different => rowAt_rewriteAt_of_ne rfl different, fun keyed => ?_, rfl⟩
    · exact rowAt_rewriteAt_self _ rfl (rowAt_isSome_iff.mp ⟨existing, present⟩)
    · dsimp only
      rw [map_key_rewriteAt rfl]
      exact keyed

end EvaluationStore

namespace EvaluationStore

def Due (store : EvaluationStore) (record : EvaluationRecord) (now : Time) : Prop :=
  metadataDue record now ∨ store.contentDue record now = .ok true

def Names (held : HeldObjects) (holder : Holder) (item : ObjectItem) : Prop :=
  ∃ items, held holder = .ok items ∧ item ∈ items

structure Purged (held : HeldObjects) (record : EvaluationRecord) (now : Time)
    (objects : List ObjectItem) (store next : EvaluationStore) (answer : List ObjectItem) :
    Prop where
  contents : ∀ content, content ∈ next.contents ↔
    content ∈ store.contents ∧ ¬content.Belongs record.experimentId
  marked : ∀ content ∈ store.contents, content.Belongs record.experimentId →
    next.contentTombstone content.key ≠ none
  contentMarks : ∃ more, next.contentTombstones = store.contentTombstones ++ more ∧
    ∀ mark ∈ more, ∃ content ∈ store.contents,
      content.Belongs record.experimentId ∧ content.key = mark.key
  due : metadataDue record now →
    next.record record.experimentId = none ∧ next.tombstone record.experimentId ≠ none
  kept : ¬metadataDue record now → next.record record.experimentId = some (record.erased now)
  records : ∀ other, other ≠ record.experimentId → next.record other = store.record other
  marks : ∃ more, next.tombstones = store.tombstones ++ more ∧
    ∀ mark ∈ more, mark.evaluationId = record.experimentId
  datasets : next.datasets = store.datasets
  cases : next.cases = store.cases
  cleanup : next.pending record.experimentId = answer
  cleanups : ∀ other, other ≠ record.experimentId → next.cleanup other = store.cleanup other
  answer : ∀ item, item ∈ answer ↔ item ∈ objects ∨ item ∈ store.pending record.experimentId ∨
    Names held (.record record) item ∨
    ∃ content ∈ store.contents, content.Belongs record.experimentId ∧
      Names held (.content content) item
  keyed : next.Keyed

variable {held : HeldObjects} {store next : EvaluationStore} {record : EvaluationRecord}
  {now : Time} {experimentId : String} {objects answer : List ObjectItem}
  {content : EvaluationContent}

theorem removeExperiment_ok (keyed : store.Keyed)
    (present : store.record record.experimentId = some record)
    (ran : store.removeExperiment held record now objects = .ok (next, answer)) :
    Purged held record now objects store next answer := by
  unfold removeExperiment at ran
  obtain ⟨_, _, ran⟩ := bind_eq_ok.mp ran
  obtain ⟨own, names, ran⟩ := bind_eq_ok.mp ran
  obtain ⟨⟨removed, found⟩, removes, ran⟩ := bind_eq_ok.mp ran
  obtain ⟨retired, retires, ran⟩ := bind_eq_ok.mp ran
  obtain ⟨contents, ⟨more, contentMarks, belonging⟩, marked, frame, items⟩ :=
    removeContent_ok removes
  have stays : removed.record record.experimentId = some record := by
    rw [frame]
    exact present
  have left := retire_ok stays retires
  have after := putCleanup_spec retired (store.cleanupAfter record now found)
  obtain ⟨made, rfl⟩ := Prod.mk.inj (pure_eq_ok.mp ran)
  rw [made] at after
  obtain ⟨cleanup, cleanups, cleanKeyed, finish⟩ := after
  have contentsSame : next.contents = removed.contents := by rw [finish, left.rest]
  have marksSame : next.contentTombstones = removed.contentTombstones := by
    rw [finish, left.rest]
  have recordsSame : next.records = retired.records := by rw [finish]
  have tombstonesSame : next.tombstones = retired.tombstones := by rw [finish]
  have cleanupsSame : retired.cleanups = store.cleanups := by rw [left.rest, frame]
  have keys : ∀ value ∈ store.contents,
      value.key ∈ (store.belonging record.experimentId).map (·.key) ↔
        value.Belongs record.experimentId := by
    intro value stored
    rw [mem_map]
    constructor
    · rintro ⟨other, member, same⟩
      obtain ⟨otherStored, belongs⟩ := mem_belonging.mp member
      rwa [← inj_on_of_nodup_map keyed.contents otherStored stored same]
    · exact fun belongs => ⟨value, mem_belonging.mpr ⟨stored, belongs⟩, rfl⟩
  refine ⟨fun value => ?_, fun value stored belongs => ?_, ⟨more, ?_, fun mark member => ?_⟩,
    fun due => ?_, fun fresh => ?_, fun other different => ?_, ?_, ?_, ?_, ?_,
    fun other different => ?_, fun item => ?_, ⟨?_, ?_, ?_⟩⟩
  · rw [contentsSame, contents, mem_filter]
    exact and_congr_right fun stored => by rw [decide_eq_true_iff, keys value stored]
  · rw [contentTombstone, marksSame]
    exact marked value (mem_belonging.mpr ⟨stored, belongs⟩)
  · rw [marksSame, contentMarks]
  · obtain ⟨value, member, same⟩ := mem_map.mp (belonging mark member)
    obtain ⟨stored, belongs⟩ := mem_belonging.mp member
    exact ⟨value, stored, belongs, same⟩
  · rw [EvaluationStore.record, tombstone, recordsSame, tombstonesSame]
    exact left.due due
  · rw [EvaluationStore.record, recordsSame]
    exact left.kept fresh
  · rw [EvaluationStore.record, recordsSame]
    refine (left.others other different).trans ?_
    rw [frame]
    rfl
  · rw [tombstonesSame]
    obtain ⟨marks, appended, owns⟩ := left.marks
    exact ⟨marks, by rw [appended, frame], owns⟩
  · rw [finish, left.rest, frame]
  · rw [finish, left.rest, frame]
  · rw [pending, show next.cleanup record.experimentId = _ from cleanup]
  · refine (cleanups other different).trans ?_
    rw [EvaluationStore.cleanup, cleanupsSame, EvaluationStore.cleanup]
  · rw [cleanupAfter, mem_sortedObjects, items item, mem_append, mem_append, or_assoc,
      or_assoc]
    refine or_congr_right (or_congr_right (or_congr ⟨fun member => ⟨own, names, member⟩, ?_⟩ ?_))
    · rintro ⟨others, same, member⟩
      rw [names] at same
      cases same
      exact member
    · constructor
      · rintro ⟨value, member, named⟩
        obtain ⟨stored, belongs⟩ := mem_belonging.mp member
        exact ⟨value, stored, belongs, named⟩
      · rintro ⟨value, stored, belongs, named⟩
        exact ⟨value, mem_belonging.mpr ⟨stored, belongs⟩, named⟩
  · rw [recordsSame]
    apply left.keyed
    rw [frame]
    exact keyed.records
  · rw [contentsSame, contents]
    exact keyed.contents.sublist (filter_sublist.map _)
  · apply cleanKeyed
    rw [cleanupsSame]
    exact keyed.cleanups

theorem purge_cases (keyed : store.Keyed)
    (ran : store.purge held experimentId now objects = .ok (next, answer)) :
    (∀ record, store.record experimentId = some record → ¬store.Due record now) ∧
      next = store ∧ answer = store.pending experimentId ∨
    ∃ record, store.record experimentId = some record ∧ record.experimentId = experimentId ∧
      store.Due record now ∧ Purged held record now objects store next answer := by
  unfold purge at ran
  cases present : store.record experimentId with
  | none =>
    rw [present] at ran
    obtain ⟨rfl, rfl⟩ := Prod.mk.inj (pure_eq_ok.mp ran)
    exact .inl ⟨fun _ => nofun, rfl, rfl⟩
  | some record =>
    rw [present] at ran
    obtain ⟨due, content, ran⟩ := bind_eq_ok.mp ran
    have own : record.experimentId = experimentId := rowAt_key present
    split at ran
    case isTrue either =>
      rw [← own] at present
      refine .inr ⟨record, rfl, own, either.imp_right fun set => ?_,
        removeExperiment_ok keyed present ran⟩
      rw [content, set]
    case isFalse neither =>
      obtain ⟨rfl, rfl⟩ := Prod.mk.inj (pure_eq_ok.mp ran)
      refine .inl ⟨fun other same => ?_, rfl, rfl⟩
      cases same
      rintro (metadata | inherited)
      · exact neither (.inl metadata)
      · rw [content] at inherited
        exact neither (.inr (Except.ok.inj inherited))

theorem contentDue_of_deleted (deleted : record.contentDeletedAt ≠ none) :
    store.contentDue record now = .ok false := if_pos deleted

end EvaluationStore

end Linktools.Evaluation
