import Linktools.Library.Paging
import Linktools.Persistence.TaskRuns
import Linktools.State.Atomicity

namespace Linktools.Persistence

open Linktools.Core Library State Linktools.Task TaskRepository List

structure RowCodec where
  decodeGraph : StoredRecord → Except Raised TaskGraphView
  decodeAdmission : StoredRecord → Except Raised TaskGraphAdmission
  decodeOperation : StoredOperation → Except Raised OperationLedgerRecord

def recordCursor (record : StoredRecord) : Lex (String × Digest) :=
  toLex (record.sortKey, record.keyDigest)

def recoverableGraphStates : List String :=
  [TaskStatus.pending.value, TaskStatus.running.value]

namespace TaskRepository

variable (repo : TaskRepository) (codec : RowCodec) (tx : MemoryTransaction)

def recordKey (kind graphId : String) : Digest :=
  repo.sha256.digest (.arr [.str "record", .str repo.namespaceId,
    .str repo.tenantId, .str "task", .str kind, .str graphId])

def recoveryScope : Digest :=
  repo.sha256.digest (.arr [.str "scope", .str repo.namespaceId,
    .str repo.tenantId, .str "task", .str "task_admission", .str "recoverable",
    .str "graphs"])

def ledgerKey (operationId : String) : Digest :=
  repo.sha256.digest (.arr [.str "operation", .str repo.namespaceId,
    .str repo.tenantId, .str "task", .str operationId])

def sortableIdentity (graphId : String) : String :=
  "i:" ++ repo.sha256.digest (.str graphId)

def validateGraphRecord (record : StoredRecord) (graphId : String) : Except Raised Unit :=
  refuse (record.kind ≠ "task_graph" ∨
    record.keyDigest ≠ repo.recordKey "task_graph" graphId ∨
    record.scopeDigest ≠ none ∨ record.parentDigest ≠ none ∨
    record.sortKey ≠ repo.sortableIdentity graphId) .integrity

def validateAdmissionRecord (record : StoredRecord) (graphId : String) : Except Raised Unit :=
  refuse (record.kind ≠ "task_admission" ∨
    record.keyDigest ≠ repo.recordKey "task_admission" graphId ∨
    record.scopeDigest ≠ some repo.recoveryScope ∨ record.parentDigest ≠ none ∨
    record.sortKey ≠ repo.sortableIdentity graphId) .integrity

def recoverableHeader (record : StoredRecord) : Except Raised TaskGraphView := do
  let header ← codec.decodeGraph record
  repo.validateGraphRecord record header.graphId
  requireCanonicalGraphStatus header.status
  refuse (record.state ≠ some header.status.value ∨
    header.status.value ∉ recoverableGraphStates) .integrity
  return header

def validateAdmissionOperation (operation : OperationLedgerRecord)
    (admission : TaskGraphAdmission) : Except Raised Unit := do
  repo.validateOperationIdentity operation admission
  refuse (operation.requestDigest ≠ admission.initialRequestDigest ∨
    operation.status ≠ .succeeded ∨ operation.resultRef ≠ some admission.graphId ∨
    (operation.resultDigest.all fun digest => isSha256 digest = false) ∨
    operation.errorCode ≠ none) .integrity

def recoverableLaunch (header : TaskGraphView) : Except Raised TaskGraphLaunch := do
  let admissionRecord ← orRaise
    (tx.records.lookup (repo.recordKey "task_admission" header.graphId))
    .integrity
  repo.validateAdmissionRecord admissionRecord header.graphId
  let admission ← codec.decodeAdmission admissionRecord
  refuse (admission.graphId ≠ header.graphId ∨
    admission.principal.tenantId ≠ repo.tenantId) .integrity
  let storedOperation ← orRaise
    (tx.operations.lookup (repo.ledgerKey admission.operationId)) .integrity
  let operation ← codec.decodeOperation storedOperation
  repo.validateAdmissionOperation operation admission
  admission.launch

def launchOf (record : StoredRecord) : Except Raised TaskGraphLaunch := do
  let header ← repo.recoverableHeader codec record
  repo.recoverableLaunch codec tx header

def recoverableQuery (cursor : Option (Lex (String × Digest))) (limit : Option Int) :
    RecordQueryFields where
  kind := some "task_graph"
  states := some recoverableGraphStates
  afterSortKey := cursor.map fun cursor => (ofLex cursor).1
  afterKeyDigest := cursor.map fun cursor => (ofLex cursor).2
  limit := limit

def listRecoverablePage (limit : Int) (cursor : Option (Lex (String × Digest))) :
    Except Raised (List TaskGraphLaunch × Option (Lex (String × Digest))) := do
  refuse (¬(1 ≤ limit ∧ limit ≤ 1000)) (.ai .requestFieldInvalid)
  let query ← RecordQuery.build (recoverableQuery cursor (some (limit + 1)))
  let records := tx.listRecords query.toRecordQueryFields
  let selected := records.take limit.toNat
  let headers ← selected.mapM (repo.recoverableHeader codec)
  let launches ← headers.mapM (repo.recoverableLaunch codec tx)
  return (launches,
    if limit.toNat < records.length then cursorAfter recordCursor selected else none)

end TaskRepository

def Recoverable (tx : MemoryTransaction) (record : StoredRecord) : Prop :=
  (∃ key, tx.records.lookup key = some record) ∧ record.kind = "task_graph" ∧
    (record.state = some TaskStatus.pending.value ∨ record.state = some TaskStatus.running.value)

/-- From no cursor on, the pages show every recoverable graph once, in the order of the
listing, and then end. -/
def VisitsEveryGraph (repo : TaskRepository) (codec : RowCodec)
    (tx : MemoryTransaction) (limit : Int) : Prop :=
  ∃ launches graphs, Visits (repo.listRecoverablePage codec tx limit) none launches ∧
    graphs.Pairwise (fun left right => recordCursor left < recordCursor right) ∧
    (∀ record, record ∈ graphs ↔ Recoverable tx record) ∧
    List.Forall₂ (fun record launch =>
      repo.launchOf codec tx record = .ok launch) graphs launches

def recoverableGraphs (tx : MemoryTransaction) : List StoredRecord :=
  tx.listRecords (recoverableQuery none none)

variable {tx : MemoryTransaction} {record : StoredRecord}

theorem matches_recoverableQuery (cursor : Option (Lex (String × Digest)))
    (limit : Option Int) : (recoverableQuery cursor limit).matchesRecord record = true ↔
      record.kind = "task_graph" ∧ (record.state = some TaskStatus.pending.value ∨
        record.state = some TaskStatus.running.value) := by
  simp only [RecordQueryFields.matchesRecord, recoverableQuery, Option.all_none,
    Option.all_some, Bool.true_and, Bool.and_true, Bool.and_eq_true, decide_eq_true_eq]
  refine and_congr_right fun _ => ?_
  cases record.state with
  | none => simp
  | some state => simp [recoverableGraphStates]

theorem mem_recoverableGraphs :
    record ∈ recoverableGraphs tx ↔ Recoverable tx record := by
  simp only [recoverableGraphs, MemoryTransaction.listRecords, recoverableQuery,
    Option.map_none, mem_insertionSort, mem_filter, mem_map]
  rw [Recoverable]
  refine and_congr ?_ (matches_recoverableQuery none none)
  constructor
  · rintro ⟨⟨key, found⟩, item, same⟩
    cases same
    exact ⟨key, Overlay.mem_items.mp item⟩
  · rintro ⟨key, stored⟩
    exact ⟨(key, record), Overlay.mem_items.mpr stored, rfl⟩

theorem pairwise_recoverableGraphs (sound : tx.view.Sound) :
    (recoverableGraphs tx).Pairwise fun left right =>
      recordCursor left < recordCursor right := by
  let values := (tx.records.items.map Prod.snd).filter
    (recoverableQuery none none).matchesRecord
  -- Records are stored under their own keys, so no two of them share a position.
  have keys : tx.records.items.map (fun item => item.2.keyDigest) =
      tx.records.items.map Prod.fst :=
    map_congr_left fun item member => sound.records_keyed (Overlay.mem_items.mp member)
  have distinct : (values.map StoredRecord.keyDigest).Nodup := by
    refine List.Nodup.sublist (filter_sublist.map _) ?_
    rw [map_map]
    change (tx.records.items.map fun item => item.2.keyDigest).Nodup
    rw [keys]
    exact Overlay.nodup_items
  have apart : (recoverableGraphs tx).Pairwise fun left right =>
      left.keyDigest ≠ right.keyDigest := by
    have perm : (recoverableGraphs tx).Perm values := perm_insertionSort _ values
    exact pairwise_map.mp ((perm.map StoredRecord.keyDigest).nodup_iff.mpr distinct)
  have ordered : (recoverableGraphs tx).Pairwise fun left right =>
      recordCursor left ≤ recordCursor right :=
    pairwise_insertionSort (fun left right => recordCursor left ≤ recordCursor right) values
  refine (ordered.and apart).imp fun {left right} both => lt_of_le_of_ne both.1 fun same => ?_
  exact both.2 (Prod.mk.inj (toLex.injective same)).2

theorem listRecords_from (cursor : Option (Lex (String × Digest))) (limit : Int) :
    tx.listRecords (recoverableQuery cursor (some limit)) =
      ((recoverableGraphs tx).filter fun record =>
        ∀ behind ∈ cursor, behind < recordCursor record).take limit.toNat := by
  cases cursor with
  | none =>
    have all : (recoverableGraphs tx).filter (fun record =>
        ∀ behind ∈ (none : Option (Lex (String × Digest))), behind < recordCursor record) =
          recoverableGraphs tx :=
      filter_eq_self.mpr fun record _ => decide_eq_true fun _ absent => by cases absent
    rw [all]
    rfl
  | some behind =>
    simp only [Option.mem_def, Option.some.injEq, forall_eq']
    rfl

variable {before rest : List StoredRecord}

theorem listRecords_behind (sound : tx.view.Sound)
    (split : recoverableGraphs tx = before ++ rest) (limit : Int) : tx.listRecords
      (recoverableQuery (cursorAfter recordCursor before) (some limit)) =
        rest.take limit.toNat := by
  have ordered := pairwise_recoverableGraphs sound
  rw [split] at ordered
  rw [listRecords_from, split, filter_after ordered]

theorem checkCursor_recoverableQuery :
    (recoverableQuery (cursorAfter recordCursor before) limit).checkCursor = .ok () := by
  rw [cursorAfter]
  cases before.getLast? with
  | none => rfl
  | some last =>
    obtain ⟨digest, nonempty, ascii⟩ := last.position_valid
    change (do
      refuse (false ≠ false) _
      (fun _ => ()) <$> encodeSortKey last.sortKey
      requireDigest last.keyDigest "after_key_digest") = Except.ok ()
    rw [refuse_of_not (not_not.mpr rfl), ok_bind, encodeSortKey, refuse_of_not nonempty, ok_bind,
      refuse_of_not (by rw [ascii]; decide), requireDigest, refuse_of_not (by rw [digest]; decide)]
    rfl

variable {limit : Int}

theorem check_recoverableQuery :
    (recoverableQuery (cursorAfter recordCursor before) (some limit)).check =
      validateLimit (some limit) := by
  rw [RecordQueryFields.check, checkCursor_recoverableQuery]
  rfl

theorem build_eq_ok (built : RecordQuery.build fields = .ok query) :
    query.toRecordQueryFields = fields ∧ fields.check = .ok () := by
  unfold RecordQuery.build at built
  split at built
  case h_1 checked =>
    cases built
    exact ⟨rfl, checked⟩
  case h_2 => cases built

theorem exists_build (checked : fields.check = .ok ()) :
    ∃ query, RecordQuery.build fields = .ok query ∧ query.toRecordQueryFields = fields := by
  unfold RecordQuery.build
  split
  case h_1 => exact ⟨_, rfl, rfl⟩
  case h_2 error refused => cases refused.symm.trans checked

theorem validateLimit_eq_ok : validateLimit (some limit) = .ok done ↔ 0 < limit ∧ limit ≤ 1000 := by
  rw [validateLimit, refuse_eq_ok, Option.any_some, decide_eq_true_eq, not_not]

variable {repo : TaskRepository} {codec : RowCodec}

variable {launches : List TaskGraphLaunch}

theorem launches_of_rows :
    (∃ headers, rows.mapM (repo.recoverableHeader codec) = .ok headers ∧
      headers.mapM (repo.recoverableLaunch codec tx) = .ok launches) ↔
    List.Forall₂ (fun row launch => repo.launchOf codec tx row = .ok launch)
      rows launches := by
  simp only [mapM_eq_ok]
  constructor
  · rintro ⟨headers, decoded, launched⟩
    induction decoded generalizing launches with
    | nil =>
      cases launched
      exact .nil
    | cons first _ ih =>
      cases launched with
      | cons launch later => exact .cons (by rw [launchOf, first]; exact launch) (ih later)
  · intro whole
    induction whole with
    | nil => exact ⟨[], .nil, .nil⟩
    | cons launch _ ih =>
      obtain ⟨headers, decoded, launched⟩ := ih
      rw [launchOf, bind_eq_ok] at launch
      obtain ⟨header, first, second⟩ := launch
      exact ⟨header :: headers, .cons first decoded, .cons second launched⟩

theorem listRecoverablePage_behind (sound : tx.view.Sound)
    (split : recoverableGraphs tx = before ++ rest) (positive : 1 ≤ limit)
    (below : limit ≤ 999) (launched : List.Forall₂ (fun row launch =>
      repo.launchOf codec tx row = .ok launch) (rest.take limit.toNat) launches) :
    repo.listRecoverablePage codec tx limit (cursorAfter recordCursor before) =
      .ok (launches, nextCursor recordCursor limit.toNat rest) := by
  have checked : (recoverableQuery (cursorAfter recordCursor before)
      (some (limit + 1))).check = .ok () := by
    rw [check_recoverableQuery, validateLimit_eq_ok]
    omega
  obtain ⟨query, built, fields⟩ := exists_build checked
  obtain ⟨headers, decoded, admitted⟩ := launches_of_rows.mpr launched
  have accepted : ¬¬(1 ≤ limit ∧ limit ≤ 1000) := not_not.mpr ⟨positive, by omega⟩
  have selected : (rest.take (limit + 1).toNat).take limit.toNat = rest.take limit.toNat := by
    rw [take_take]
    congr 1
    omega
  have more : limit.toNat < (rest.take (limit + 1).toNat).length ↔ limit.toNat < rest.length := by
    rw [length_take]
    omega
  rw [listRecoverablePage, refuse_of_not accepted, ok_bind, built, ok_bind, fields,
    listRecords_behind sound split]
  dsimp only
  rw [selected, decoded, ok_bind, admitted, ok_bind]
  simp only [more]
  rfl

/-- The paging visits every recoverable graph exactly once exactly when the limit is below
the largest one that it accepts, and every recoverable graph passes its checks. -/
theorem pages_visit_every_graph {ι : Type} [DecidableEq ι] {group : MemoryGroup ι}
    (reachable : (mutationMachine ι).Reachable group) (store : ι) (repo : TaskRepository)
    (codec : RowCodec) (limit : Int) (positive : 1 ≤ limit) (accepted : limit ≤ 1000) :
    VisitsEveryGraph repo codec (.begin (group store)) limit ↔
      limit ≤ 999 ∧ ∀ record, Recoverable (.begin (group store)) record →
        ∃ launch, repo.launchOf codec (.begin (group store)) record = .ok launch := by
  have sound : (MemoryTransaction.begin (group store)).view.Sound :=
    sound_of_reachable reachable store
  constructor
  · rintro ⟨launches, graphs, visits, _, every, launched⟩
    constructor
    · by_contra largest
      have first : ∃ page, repo.listRecoverablePage codec (.begin (group store)) limit none =
          .ok page := by
        cases visits with
        | last fetched => exact ⟨_, fetched⟩
        | more fetched => exact ⟨_, fetched⟩
      obtain ⟨page, fetched⟩ := first
      rw [listRecoverablePage, bind_eq_ok] at fetched
      obtain ⟨_, _, fetched⟩ := fetched
      rw [bind_eq_ok] at fetched
      obtain ⟨query, built, _⟩ := fetched
      have checked := (build_eq_ok built).2
      have cursor : none = cursorAfter recordCursor ([] : List StoredRecord) := rfl
      rw [cursor, check_recoverableQuery, validateLimit_eq_ok] at checked
      omega
    · intro record recoverable
      obtain ⟨launch, _, answered⟩ := forall₂_mem_left launched ((every record).mpr recoverable)
      exact ⟨launch, answered⟩
  · rintro ⟨below, intact⟩
    have fetches : ∀ before rest, recoverableGraphs (.begin (group store)) = before ++ rest →
        ∃ items, repo.listRecoverablePage codec (.begin (group store)) limit
            (cursorAfter recordCursor before) =
              .ok (items, nextCursor recordCursor limit.toNat rest) ∧
          List.Forall₂ (fun record launch =>
            repo.launchOf codec (.begin (group store)) record = .ok launch)
            (rest.take limit.toNat) items := by
      intro before rest split
      have each : ∀ record ∈ rest.take limit.toNat, ∃ launch,
          repo.launchOf codec (.begin (group store)) record = .ok launch ∧
            repo.launchOf codec (.begin (group store)) record = .ok launch := by
        intro record member
        have listed : record ∈ recoverableGraphs (.begin (group store)) := by
          rw [split]
          exact mem_append_right _ (mem_of_mem_take member)
        obtain ⟨launch, launched⟩ := intact record (mem_recoverableGraphs.mp listed)
        exact ⟨launch, launched, launched⟩
      obtain ⟨items, _, launched⟩ := exists_mapM each
      exact ⟨items, listRecoverablePage_behind sound split positive below launched, launched⟩
    obtain ⟨launches, visits, launched⟩ := exists_visits (by omega) fetches
    exact ⟨launches, recoverableGraphs _, visits, pairwise_recoverableGraphs sound,
      fun record => mem_recoverableGraphs, launched⟩

def oneGraphDigest (value : JsonValue) : String :=
  match value with
  | .arr (_ :: _ :: _ :: _ :: .str "task_admission" :: _) =>
    "bbbbbbbbbbbbbbbbbbbbbbbbbbbbbbbbbbbbbbbbbbbbbbbbbbbbbbbbbbbbbbbb"
  | _ => "aaaaaaaaaaaaaaaaaaaaaaaaaaaaaaaaaaaaaaaaaaaaaaaaaaaaaaaaaaaaaaaa"

def oneGraphRepository : TaskRepository where
  namespaceId := "runtime"
  tenantId := "tenant"
  sha256 :=
    { digest := oneGraphDigest
      digest_isSha256 := by
        intro value
        unfold oneGraphDigest
        split <;> exact isSha256_ofList (by decide) }

def oneGraphAdmission : TaskGraphAdmission := sampleAdmission

def oneGraphOperation : OperationLedgerRecord where
  operationId := oneGraphAdmission.operationId
  tenantId := "tenant"
  resourceKind := .taskGraph
  resourceId := "graph"
  executionId := none
  operationKind := .taskNode
  status := .succeeded
  requestDigest := oneGraphAdmission.initialRequestDigest
  resultRef := some "graph"
  resultDigest := some "6bdcf7da78396693f4f2ea8955b95d677c5dec918bd44172710b882e0abce060"
  errorCode := none
  compactable := false
  createdAt := 0
  updatedAt := 0
  sequence := 1

def oneGraphCodec : RowCodec where
  decodeGraph _ := .ok ⟨"graph", .pending, []⟩
  decodeAdmission _ := .ok oneGraphAdmission
  decodeOperation _ := .ok oneGraphOperation

theorem graphRow_identified :
    checkRecordIdentity "aaaaaaaaaaaaaaaaaaaaaaaaaaaaaaaaaaaaaaaaaaaaaaaaaaaaaaaaaaaaaaaa" none none
      "task_graph" "i:aaaaaaaaaaaaaaaaaaaaaaaaaaaaaaaaaaaaaaaaaaaaaaaaaaaaaaaaaaaaaaaa"
      (some "PENDING") = .ok () := by
  rw [checkRecordIdentity, requireDigest_ok]
  · exact toOption_eq_some.mp (by decide +kernel)
  · exact isSha256_ofList (by decide)

def graphRow : StoredRecord where
  keyDigest := "aaaaaaaaaaaaaaaaaaaaaaaaaaaaaaaaaaaaaaaaaaaaaaaaaaaaaaaaaaaaaaaa"
  scopeDigest := none
  parentDigest := none
  kind := "task_graph"
  sortKey := "i:aaaaaaaaaaaaaaaaaaaaaaaaaaaaaaaaaaaaaaaaaaaaaaaaaaaaaaaaaaaaaaaa"
  state := some "PENDING"
  storageRevision := 0
  leaseOwner := none
  leaseFence := 0
  leaseExpiresAt := none
  data := []
  identified := graphRow_identified

theorem admissionRow_identified :
    checkRecordIdentity "bbbbbbbbbbbbbbbbbbbbbbbbbbbbbbbbbbbbbbbbbbbbbbbbbbbbbbbbbbbbbbbb"
      (some "bbbbbbbbbbbbbbbbbbbbbbbbbbbbbbbbbbbbbbbbbbbbbbbbbbbbbbbbbbbbbbbb") none
      "task_admission" "i:aaaaaaaaaaaaaaaaaaaaaaaaaaaaaaaaaaaaaaaaaaaaaaaaaaaaaaaaaaaaaaaa"
      none = .ok () := by
  rw [checkRecordIdentity, requireDigest_ok]
  · exact toOption_eq_some.mp (by decide +kernel)
  · exact isSha256_ofList (by decide)

def admissionRow : StoredRecord where
  keyDigest := "bbbbbbbbbbbbbbbbbbbbbbbbbbbbbbbbbbbbbbbbbbbbbbbbbbbbbbbbbbbbbbbb"
  scopeDigest := some "bbbbbbbbbbbbbbbbbbbbbbbbbbbbbbbbbbbbbbbbbbbbbbbbbbbbbbbbbbbbbbbb"
  parentDigest := none
  kind := "task_admission"
  sortKey := "i:aaaaaaaaaaaaaaaaaaaaaaaaaaaaaaaaaaaaaaaaaaaaaaaaaaaaaaaaaaaaaaaa"
  state := none
  storageRevision := 0
  leaseOwner := none
  leaseFence := 0
  leaseExpiresAt := none
  data := []
  identified := admissionRow_identified

def operationRow : StoredOperation where
  keyDigest := "aaaaaaaaaaaaaaaaaaaaaaaaaaaaaaaaaaaaaaaaaaaaaaaaaaaaaaaaaaaaaaaa"
  streamDigest := "cccccccccccccccccccccccccccccccccccccccccccccccccccccccccccccccc"
  sequence := 1
  state := "SUCCEEDED"
  compactable := false
  data := []

def oneGraphInserted : Callback Unit :=
  .call () (.insertRecords [graphRow, admissionRow]) fun _ =>
    .call () (.insertOperation operationRow) fun _ => .done

def oneGraphGroup : MemoryGroup Unit :=
  (MemoryGroup.mutate (fun _ => {}) {} [()] oneGraphInserted).2

theorem oneGraphGroup_reachable : (mutationMachine Unit).Reachable oneGraphGroup := by
  have step : (mutationMachine Unit).step (fun _ => {}) ⟨{}, [()], oneGraphInserted⟩
      oneGraphGroup := rfl
  exact (Machine.Reachable.of_initial fun _ => rfl).step step

theorem one_graph_is_visited :
    VisitsEveryGraph oneGraphRepository oneGraphCodec (.begin (oneGraphGroup ())) 1 := by
  refine (pages_visit_every_graph oneGraphGroup_reachable () oneGraphRepository oneGraphCodec 1
    (by decide) (by decide)).mpr ⟨by decide, fun record recoverable => ?_⟩
  have listed := mem_recoverableGraphs.mpr recoverable
  have only : recoverableGraphs (.begin (oneGraphGroup ())) = [graphRow] := by rfl
  rw [only, mem_singleton] at listed
  subst listed
  exact ⟨_, rfl⟩

/-- At the largest accepted limit the query of the first page asks for one row too many. -/
theorem largest_limit_raises : ¬∀ limit : Int, 1 ≤ limit → limit ≤ 1000 →
      VisitsEveryGraph oneGraphRepository oneGraphCodec (.begin (oneGraphGroup ())) limit := by
  intro every
  obtain ⟨launches, graphs, visits, _⟩ := every 1000 (by decide) (by decide)
  have raised : oneGraphRepository.listRecoverablePage oneGraphCodec
      (.begin (oneGraphGroup ())) 1000 none =
        .error (.valueError "limit must be between 1 and 1000") := by rfl
  cases visits with
  | last fetched => cases raised.symm.trans fetched
  | more fetched => cases raised.symm.trans fetched

end Linktools.Persistence
