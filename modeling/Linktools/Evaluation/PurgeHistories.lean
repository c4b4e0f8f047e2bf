import Linktools.Evaluation.LaunchHistories
import Linktools.Evaluation.PurgeResults

namespace Linktools.Evaluation

open Linktools.Core Library List

inductive StoreCall
  | purge (experimentId : String) (now : Time) (objects : List ObjectItem)
  | acknowledge (experimentId : String) (objects : List ObjectItem)
  | publish (content : EvaluationContent)

def EvaluationStore.call (held : HeldObjects) (store : EvaluationStore) :
    StoreCall → EvaluationStore
  | .purge experimentId now objects =>
    match store.purge held experimentId now objects with
    | .ok (next, _) => next
    | .error _ => store
  | .acknowledge experimentId objects => store.acknowledgeCleanup experimentId objects
  | .publish content =>
    match store.putContent content with
    | .ok (next, _) => next
    | .error _ => store

def evaluationMachine (held : HeldObjects) : Machine EvaluationStore StoreCall where
  initial := EvaluationStore.Keyed
  step store call next := next = store.call held call

def StoreCall.Acknowledges (experimentId : String) (item : ObjectItem) : StoreCall → Prop
  | .acknowledge other objects => other = experimentId ∧ item ∈ objects
  | _ => False

namespace EvaluationStore

variable {held : HeldObjects} {store next last : EvaluationStore} {record : EvaluationRecord}
  {now : Time} {experimentId : String} {objects answer : List ObjectItem} {call : StoreCall}
  {key : ContentKey} {item : ObjectItem} {labels : List StoreCall}

theorem putContent_cases (put : store.putContent value = .ok (next, shown)) :
    store.contentTombstone value.key = none ∧
      (next = store ∨ store.content value.key = none ∧
        next = { store with contents := store.contents ++ [value] }) := by
  unfold putContent at put
  obtain ⟨_, unmarked, put⟩ := bind_eq_ok.mp put
  rw [refuse_eq_ok, ne_eq, not_not] at unmarked
  refine ⟨unmarked, ?_⟩
  cases present : store.content value.key with
  | some existing =>
    rw [present] at put
    obtain ⟨_, _, same⟩ := bind_eq_ok.mp put
    exact .inl (Prod.mk.inj (pure_eq_ok.mp same)).1.symm
  | none =>
    rw [present] at put
    exact .inr ⟨rfl, (Prod.mk.inj (pure_eq_ok.mp put)).1.symm⟩

theorem acknowledgeCleanup_rest (store : EvaluationStore) (experimentId : String)
    (objects : List ObjectItem) : store.acknowledgeCleanup experimentId objects =
      { store with cleanups := (store.acknowledgeCleanup experimentId objects).cleanups } := by
  unfold acknowledgeCleanup
  split
  case h_1 => rfl
  case h_2 value _ =>
    dsimp only
    split
    case isTrue => rfl
    case isFalse =>
      split
      case isTrue => rfl
      case isFalse => rfl

theorem acknowledgeCleanup_pending (store : EvaluationStore) (experimentId other : String)
    (objects : List ObjectItem) : (store.acknowledgeCleanup experimentId objects).pending other =
      if other = experimentId then (store.pending other).filter (· ∉ objects)
      else store.pending other := by
  by_cases own : other = experimentId
  case neg =>
    rw [if_neg own]
    have same : (store.acknowledgeCleanup experimentId objects).cleanup other =
        store.cleanup other := by
      unfold acknowledgeCleanup
      split
      case h_1 => rfl
      case h_2 value found =>
        dsimp only
        split
        case isTrue => exact rowAt_filter_of_ne own
        case isFalse =>
          have key : value.evaluationId = experimentId := rowAt_key found
          split
          case isTrue => exact rowAt_rewriteAt_of_ne key own
          case isFalse => rfl
    rw [pending, same, pending]
  case pos =>
    subst own
    rw [if_pos rfl]
    cases found : store.cleanup other with
    | none =>
      have same : store.acknowledgeCleanup other objects = store := by
        rw [acknowledgeCleanup, found]
      rw [same, pending, found]
      rfl
    | some value =>
      have key : value.evaluationId = other := rowAt_key found
      have before : store.pending other = value.objects := by rw [pending, found]
      rw [before]
      unfold acknowledgeCleanup
      rw [found]
      dsimp only
      split
      case isTrue emptied =>
        have gone : { store with
            cleanups := store.cleanups.filter fun cleanup =>
              cleanup.evaluationId ≠ other }.cleanup other = none := rowAt_filter_self
        rw [pending, gone, emptied]
      case isFalse =>
        split
        case isTrue =>
          have rewritten : { store with
              cleanups := rewriteAt (·.evaluationId) store.cleanups other
                { value with objects := value.objects.filter (· ∉ objects) } }.cleanup other =
              some { value with objects := value.objects.filter (· ∉ objects) } :=
            rowAt_rewriteAt_self _ key (rowAt_isSome_iff.mp ⟨value, found⟩)
          rw [pending, rewritten]
        case isFalse same =>
          rw [not_not] at same
          rw [same]
          exact before

theorem call_cases (held : HeldObjects) (keyed : store.Keyed) (call : StoreCall) :
    store.call held call = store ∨
    (∃ experimentId now objects record answer, call = .purge experimentId now objects ∧
      store.record experimentId = some record ∧ record.experimentId = experimentId ∧
      store.Due record now ∧ Purged held record now objects store (store.call held call) answer) ∨
    (∃ experimentId objects, call = .acknowledge experimentId objects ∧
      store.call held call = store.acknowledgeCleanup experimentId objects) ∨
    ∃ content, call = .publish content ∧ store.contentTombstone content.key = none ∧
      store.content content.key = none ∧
      store.call held call = { store with contents := store.contents ++ [content] } := by
  cases call with
  | purge experimentId now objects =>
    cases ran : store.purge held experimentId now objects with
    | error raised => exact .inl (by rw [EvaluationStore.call, ran])
    | ok result =>
      obtain ⟨next, answer⟩ := result
      have left : store.call held (.purge experimentId now objects) = next := by
        rw [EvaluationStore.call, ran]
      rw [left]
      rcases purge_cases keyed ran with ⟨_, same, _⟩ | ⟨record, present, own, due, purged⟩
      · exact .inl same
      · exact .inr (.inl ⟨experimentId, now, objects, record, answer, rfl, present, own, due,
          purged⟩)
  | acknowledge experimentId objects => exact .inr (.inr (.inl ⟨experimentId, objects, rfl, rfl⟩))
  | publish content =>
    cases put : store.putContent content with
    | error raised => exact .inl (by rw [EvaluationStore.call, put])
    | ok result =>
      obtain ⟨next, shown⟩ := result
      have left : store.call held (.publish content) = next := by
        rw [EvaluationStore.call, put]
      rw [left]
      obtain ⟨unmarked, same | ⟨absent, appended⟩⟩ := putContent_cases put
      · exact .inl same
      · exact .inr (.inr (.inr ⟨content, rfl, unmarked, absent, appended⟩))

theorem call_keyed (keyed : store.Keyed) : (store.call held call).Keyed := by
  rcases call_cases held keyed call with
    same | ⟨_, _, _, _, _, _, _, _, _, purged⟩ | ⟨experimentId, objects, _, left⟩ |
    ⟨content, _, _, absent, left⟩
  · rwa [same]
  · exact purged.keyed
  · rw [left]
    have rest := acknowledgeCleanup_rest store experimentId objects
    refine ⟨?_, ?_, ?_⟩
    · rw [rest]
      exact keyed.records
    · rw [rest]
      exact keyed.contents
    · unfold acknowledgeCleanup
      split
      case h_1 => exact keyed.cleanups
      case h_2 value found =>
        dsimp only
        split
        case isTrue => exact keyed.cleanups.sublist (filter_sublist.map _)
        case isFalse =>
          have own : value.evaluationId = experimentId := rowAt_key found
          have key : ({ value with objects := value.objects.filter (· ∉ objects) } :
              EvaluationCleanupRecord).evaluationId = experimentId := own
          split
          case isTrue =>
            dsimp only
            rw [map_key_rewriteAt key]
            exact keyed.cleanups
          case isFalse => exact keyed.cleanups
  · rw [left]
    refine ⟨keyed.records, nodup_map_append keyed.contents fun other member same => ?_,
      keyed.cleanups⟩
    exact rowAt_eq_none_iff.mp absent (mem_map.mpr ⟨other, member, same⟩)

end EvaluationStore

namespace EvaluationStore

variable {held : HeldObjects} {store next last : EvaluationStore} {record : EvaluationRecord}
  {now : Time} {experimentId : String} {objects answer : List ObjectItem} {call : StoreCall}
  {key : ContentKey} {item : ObjectItem} {labels : List StoreCall}

structure Sealed (key : ContentKey) (store : EvaluationStore) : Prop where
  marked : store.contentTombstone key ≠ none
  absent : store.content key = none

theorem Purged.sealed (purged : Purged held record now objects store next answer)
    (keyed : store.Keyed) {content : EvaluationContent} (stored : content ∈ store.contents)
    (belongs : content.Belongs record.experimentId) : Sealed content.key next := by
  refine ⟨purged.marked content stored belongs, rowAt_eq_none_iff.mpr fun member => ?_⟩
  obtain ⟨other, left, same⟩ := mem_map.mp member
  obtain ⟨otherStored, foreign⟩ := (purged.contents other).mp left
  rw [inj_on_of_nodup_map keyed.contents otherStored stored same] at foreign
  exact foreign belongs

theorem Sealed.stays (closed : Sealed key store) (keyed : store.Keyed) :
    Sealed key (store.call held call) := by
  obtain ⟨marked, absent⟩ := closed
  rcases call_cases held keyed call with
    same | ⟨_, _, _, _, _, _, _, _, _, purged⟩ | ⟨experimentId, objects, _, left⟩ |
    ⟨content, _, unmarked, _, left⟩
  · rw [same]
    exact ⟨marked, absent⟩
  · obtain ⟨more, appended, _⟩ := purged.contentMarks
    refine ⟨?_, rowAt_eq_none_iff.mpr fun member => ?_⟩
    · rw [contentTombstone, appended]
      exact rowAt_append_ne_none marked
    · obtain ⟨other, left, same⟩ := mem_map.mp member
      exact rowAt_eq_none_iff.mp absent
        (mem_map.mpr ⟨other, ((purged.contents other).mp left).1, same⟩)
  · rw [left, acknowledgeCleanup_rest]
    exact ⟨marked, absent⟩
  · rw [left]
    refine ⟨marked, (rowAt_append_of_ne fun added member => ?_).trans absent⟩
    rw [mem_singleton.mp member]
    rintro rfl
    exact marked unmarked

structure Gone (experimentId : String) (store : EvaluationStore) : Prop where
  marked : store.tombstone experimentId ≠ none
  absent : store.record experimentId = none

theorem Gone.stays (gone : Gone experimentId store) (keyed : store.Keyed) :
    Gone experimentId (store.call held call) := by
  obtain ⟨marked, absent⟩ := gone
  rcases call_cases held keyed call with
    same | ⟨other, _, _, record, _, _, present, own, _, purged⟩ | ⟨_, objects, _, left⟩ |
    ⟨content, _, _, _, left⟩
  · rw [same]
    exact ⟨marked, absent⟩
  · obtain ⟨more, appended, _⟩ := purged.marks
    refine ⟨?_, (purged.records experimentId ?_).trans absent⟩
    · rw [tombstone, appended]
      exact rowAt_append_ne_none marked
    · rw [own]
      rintro rfl
      rw [absent] at present
      cases present
  · rw [left, acknowledgeCleanup_rest]
    exact ⟨marked, absent⟩
  · rw [left]
    exact ⟨marked, absent⟩

def Spent (experimentId : String) (record : EvaluationRecord) (store : EvaluationStore) : Prop :=
  store.record experimentId = none ∨
    record.contentDeletedAt ≠ none ∧ store.record experimentId = some record

theorem Spent.stays (spent : Spent experimentId record store) (keyed : store.Keyed) :
    Spent experimentId record (store.call held call) := by
  rcases call_cases held keyed call with
    same | ⟨other, _, _, found, _, _, present, own, due, purged⟩ | ⟨_, objects, _, left⟩ |
    ⟨content, _, _, _, left⟩
  · rwa [same]
  · by_cases here : experimentId = other
    case neg =>
      rw [Spent, purged.records experimentId (own.symm ▸ here)]
      exact spent
    case pos =>
      subst here
      rcases spent with absent | ⟨deleted, same⟩
      · rw [absent] at present
        cases present
      · rw [same] at present
        cases present
        rcases due with metadata | content
        · exact .inl (own ▸ (purged.due metadata).1)
        · rw [contentDue_of_deleted deleted] at content
          cases content
  · rw [left, acknowledgeCleanup_rest]
    exact spent
  · rw [left]
    exact spent

theorem Spent.purge (spent : Spent experimentId record store) (fresh : ¬metadataDue record later) :
    store.purge held experimentId later objects = .ok (store, store.pending experimentId) := by
  rcases spent with absent | ⟨deleted, present⟩
  · rw [EvaluationStore.purge, absent]
    rfl
  · rw [EvaluationStore.purge, present]
    dsimp only
    rw [contentDue_of_deleted deleted]
    exact if_neg fun either => either.elim fresh nofun

theorem pending_call (held : HeldObjects) (call : StoreCall)
    (waiting : item ∈ store.pending experimentId) (keyed : store.Keyed) :
    item ∈ (store.call held call).pending experimentId ∨ call.Acknowledges experimentId item := by
  rcases call_cases held keyed call with
    same | ⟨other, _, _, record, _, _, _, own, _, purged⟩ | ⟨other, objects, rfl, left⟩ |
    ⟨content, _, _, _, left⟩
  · rw [same]
    exact .inl waiting
  · refine .inl ?_
    by_cases here : experimentId = record.experimentId
    case pos =>
      rw [here] at waiting ⊢
      rw [purged.cleanup, purged.answer]
      exact .inr (.inl waiting)
    case neg =>
      rw [pending, purged.cleanups experimentId here]
      exact waiting
  · rw [left, acknowledgeCleanup_pending]
    split
    case isTrue here =>
      by_cases listed : item ∈ objects
      case pos => exact .inr ⟨here.symm, listed⟩
      case neg => exact .inl (mem_filter.mpr ⟨waiting, decide_eq_true listed⟩)
    case isFalse => exact .inl waiting
  · rw [left]
    exact .inl waiting

theorem reachable_keyed (reachable : (evaluationMachine held).Reachable store) : store.Keyed := by
  refine reachable.invariant (fun _ start => start) ?_
  rintro first call last - keyed rfl
  exact call_keyed keyed

theorem run_keeps {kept : EvaluationStore → Prop}
    (each : ∀ (store : EvaluationStore) (call : StoreCall), store.Keyed → kept store →
      kept (store.call held call))
    (reachable : (evaluationMachine held).Reachable next) (start : kept next)
    (run : Machine.Run (evaluationMachine held) next labels last) : kept last := by
  refine run.preserves ?_ reachable start
  rintro first call last reached holds rfl
  exact each first call (reachable_keyed reached) holds

theorem run_pending (reachable : (evaluationMachine held).Reachable next)
    (waiting : item ∈ next.pending experimentId)
    (run : Machine.Run (evaluationMachine held) next labels last) :
    item ∈ last.pending experimentId ∨ ∃ call ∈ labels, call.Acknowledges experimentId item := by
  induction run with
  | nil => exact .inl waiting
  | @cons first middle last call rest step _ ih =>
    rcases pending_call held call waiting (reachable_keyed reachable) with
      still | acknowledged
    · have stays : item ∈ middle.pending experimentId := by
        rw [show middle = first.call held call from step]
        exact still
      rcases ih (reachable.step step) stays with ending | ⟨later, member, acknowledged⟩
      · exact .inl ending
      · exact .inr ⟨later, mem_cons_of_mem _ member, acknowledged⟩
    · exact .inr ⟨call, mem_cons_self, acknowledged⟩

theorem Sealed.reads (closed : Sealed key store) :
    store.getContent key = .error (.ai .evaluationEvidenceUnavailable) := by
  rw [getContent, closed.absent]
  dsimp only
  rw [refuse, if_pos closed.marked]
  rfl

theorem Sealed.publishes (closed : Sealed key store) (same : value.key = key) :
    store.putContent value = .error (.ai .evaluationEvidenceUnavailable) := by
  rw [putContent, same, refuse, if_pos closed.marked]
  rfl

variable {reportId : String}

theorem Sealed.reports (closed : Sealed (.report reportId) store) :
    store.getReport reportId = .error (.ai .evaluationEvidenceUnavailable) := by
  rw [getReport, closed.reads]
  rfl

theorem Sealed.comparisons (closed : Sealed (.comparison reportId) store)
    (shown : store.getReport reportId = .ok value) :
    value = store.content (.report reportId) ∧ value ≠ none := by
  unfold getReport at shown
  obtain ⟨report, got, shown⟩ := bind_eq_ok.mp shown
  cases report with
  | none =>
    rw [closed.reads] at shown
    cases shown
  | some report =>
    cases pure_eq_ok.mp shown
    refine ⟨?_, nofun⟩
    unfold getContent at got
    cases present : store.content (.report reportId) with
    | none =>
      rw [present] at got
      obtain ⟨_, _, impossible⟩ := bind_eq_ok.mp got
      cases pure_eq_ok.mp impossible
    | some stored =>
      rw [present] at got
      exact (pure_eq_ok.mp got).symm

theorem Gone.reads (gone : Gone experimentId store) :
    store.get experimentId = .error (.ai .evaluationEvidenceUnavailable) := by
  rw [get, gone.absent]
  dsimp only
  rw [refuse, if_pos gone.marked]
  rfl

theorem Gone.publishes (gone : Gone experimentId store) (same : value.experimentId = experimentId) :
    store.putRecord value = .error (.ai .evaluationEvidenceUnavailable) := by
  rw [putRecord, same, refuse, if_pos gone.marked]
  rfl

structure Purged.Lasts (held : HeldObjects) (record : EvaluationRecord) (now : Time)
    (store : EvaluationStore) (answer : List ObjectItem) (labels : List StoreCall)
    (last : EvaluationStore) : Prop where
  reads : ∀ content ∈ store.contents, content.Belongs record.experimentId →
    last.getContent content.key = .error (.ai .evaluationEvidenceUnavailable)
  publishes : ∀ content ∈ store.contents, content.Belongs record.experimentId →
    ∀ value : EvaluationContent, value.key = content.key →
      last.putContent value = .error (.ai .evaluationEvidenceUnavailable)
  reports : ∀ content ∈ store.contents, content.Belongs record.experimentId →
    ∀ reportId, content.key = .report reportId →
      last.getReport reportId = .error (.ai .evaluationEvidenceUnavailable)
  comparisons : ∀ content ∈ store.contents, content.Belongs record.experimentId →
    ∀ reportId, content.key = .comparison reportId → ∀ value, last.getReport reportId = .ok value →
        value = last.content (.report reportId) ∧ value ≠ none
  experiment : metadataDue record now →
    last.get record.experimentId = .error (.ai .evaluationEvidenceUnavailable) ∧
      ∀ value : EvaluationRecord, value.experimentId = record.experimentId →
        last.putRecord value = .error (.ai .evaluationEvidenceUnavailable)
  objects : ∀ item ∈ answer, item ∈ last.pending record.experimentId ∨
    ∃ call ∈ labels, call.Acknowledges record.experimentId item
  repeated : ∀ later more, metadataDue record now ∨ ¬metadataDue record later →
    last.purge held record.experimentId later more = .ok (last, last.pending record.experimentId)

theorem Purged.lasts (purged : Purged held record now objects store next answer)
    (reachable : (evaluationMachine held).Reachable store)
    (after : (evaluationMachine held).Reachable next)
    (run : Machine.Run (evaluationMachine held) next labels last) :
    Purged.Lasts held record now store answer labels last := by
  have keyed := reachable_keyed reachable
  have closed : ∀ content ∈ store.contents, content.Belongs record.experimentId →
      Sealed content.key last := fun content stored belongs =>
    run_keeps (fun _ _ keyed held => held.stays keyed) after
      (purged.sealed keyed stored belongs) run
  have gone : metadataDue record now → Gone record.experimentId last := fun due =>
    run_keeps (fun _ _ keyed held => held.stays keyed) after
      ⟨(purged.due due).2, (purged.due due).1⟩ run
  refine ⟨fun content stored belongs => (closed content stored belongs).reads,
    fun content stored belongs value same => (closed content stored belongs).publishes same,
    fun content stored belongs reportId same => ?_,
    fun content stored belongs reportId same value shown => ?_,
    fun due => ⟨(gone due).reads, fun value same => (gone due).publishes same⟩,
    fun item member => run_pending after (purged.cleanup.symm ▸ member) run,
    fun later more either => ?_⟩
  · exact Sealed.reports (same ▸ closed content stored belongs)
  · exact Sealed.comparisons (same ▸ closed content stored belongs) shown
  · by_cases due : metadataDue record now
    case pos =>
      rw [EvaluationStore.purge, (gone due).absent]
      rfl
    case neg =>
      have spent : Spent record.experimentId (record.erased now) last :=
        run_keeps (fun _ _ keyed held => held.stays keyed) after (.inr ⟨nofun, purged.kept due⟩) run
      exact spent.purge (either.resolve_left due)

/-- A purge that removes content removes all of it at once, seals every removed identity for
ever, keeps every object pending until it is acknowledged, leaves other experiments alone,
and does nothing when it is repeated. -/
theorem purge_is_complete (held : HeldObjects) (store : EvaluationStore)
    (reachable : (evaluationMachine held).Reachable store) (experimentId : String) (now : Time)
    (objects : List ObjectItem) (next : EvaluationStore) (answer : List ObjectItem)
    (purged : store.purge held experimentId now objects = .ok (next, answer)) :
    ((∀ record, store.record experimentId = some record → ¬store.Due record now) ∧
      next = store ∧ answer = store.pending experimentId) ∨
    ∃ record, store.record experimentId = some record ∧ record.experimentId = experimentId ∧
      store.Due record now ∧ Purged held record now objects store next answer ∧
      ∀ labels last, Machine.Run (evaluationMachine held) next labels last →
        Purged.Lasts held record now store answer labels last := by
  rcases purge_cases (reachable_keyed reachable) purged with
    nothing | ⟨record, present, own, due, removed⟩
  · exact .inl nothing
  · have step : (evaluationMachine held).step store (.purge experimentId now objects) next := by
      change next = store.call held _
      rw [EvaluationStore.call, purged]
    exact .inr ⟨record, present, own, due, removed, fun labels last run =>
      removed.lasts reachable (reachable.step step) run⟩

def purgedBundle : EvidenceBundle := ⟨⟨"evidence", "digest"⟩, ⟨"experiment", "a"⟩, "trace"⟩

def attachment : ObjectItem := (.evaluation, ⟨"store", "attachment", "digest", 1⟩)

/-- An experiment whose content expires at 5, with one bundle of evidence. -/
def expiringStore : EvaluationStore where
  records := [{
    manifest := sampleReserved.manifest
    manifestDigest := "manifest"
    requestDigest := "request"
    idempotencyKeyDigest := "key"
    gate := .closedCancel
    revision := 1
    createdAt := 0
    updatedAt := 0
    contentExpiresAt := some 5
    live _ _ := nofun }]
  contents := [.evidence purgedBundle]

def bundleObjects : HeldObjects
  | .content (.evidence _) => .ok [attachment]
  | _ => .ok []

theorem expired_content_is_removed :
    ∃ next answer, expiringStore.purge bundleObjects "experiment" 9 [] = .ok (next, answer) ∧
      next.contents = [] ∧ answer = [attachment] ∧
      next.getContent (.evidence "evidence") = .error (.ai .evaluationEvidenceUnavailable) := by
  have start : (evaluationMachine bundleObjects).Reachable expiringStore :=
    .of_initial ⟨nodup_singleton _, nodup_singleton _, nodup_nil⟩
  refine ⟨_, _, rfl, rfl, rfl, ?_⟩
  rcases purge_is_complete bundleObjects expiringStore start "experiment" 9 [] _ _ rfl with
    ⟨nothing, _, _⟩ | ⟨record, present, own, _, _, lasts⟩
  · exact absurd (.inr rfl) (nothing _ rfl)
  · refine (lasts [] _ (.nil _)).reads _ mem_cons_self ?_
    rw [own]
    rfl

end EvaluationStore

end Linktools.Evaluation
