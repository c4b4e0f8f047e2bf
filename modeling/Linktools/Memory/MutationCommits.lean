import Linktools.Memory.MutationLogs

namespace Linktools.Memory

open Linktools.Core Library Function List

/-! The ledger has the log, the records are what the log leaves, and each call knows what it has
seen. -/

variable {runtime : RuntimeMemoryStore} {request : MutationRequest}
  {receipt : MutationReceipt} {path : String} {log more : List Committed} {entry : Committed}
  {store : MemoryStore} {call : MemoryCall}

theorem ReceiptOf.sound (own : ReceiptOf runtime request receipt) : receipt.Sound := by
  refine ⟨?_, ?_⟩
  · rw [own.path]
    exact own.normal
  · rw [own.kind, own.version]
    cases request.body with
    | write content => exact ⟨_, rfl, runtime.versionToken_valid⟩
    | delete => rfl

structure SameMutation (entry : Committed) (request : MutationRequest) : Prop where
  operation : entry.request.operation = request.operation
  path : entry.receipt.path = request.path
  kind : entry.receipt.kind = request.body.kind

structure LedgerOf (runtime : RuntimeMemoryStore) (store : MemoryStore) (log : List Committed) :
    Prop where
  rows : ∀ entry ∈ log, ∃ row now,
    store.operations (runtime.operationId entry.request.operation.id) = some row ∧
      row.toOperationLedgerInput =
        runtime.operationInput entry.request.operation entry.receipt now ∧ 1 ≤ row.sequence
  known : ∀ key row, store.operations key = some row →
    ∃ entry ∈ log, runtime.operationId entry.request.operation.id = key
  distinct : (log.map fun entry => entry.request.operation.id).Nodup
  receipts : ∀ entry ∈ log, ReceiptOf runtime entry.request entry.receipt

structure RecordsOf (runtime : RuntimeMemoryStore) (store : MemoryStore) (log : List Committed) :
    Prop where
  valid : ∀ path record, store.records (runtime.memoryId path) = some record →
    runtime.validateRecord path record = .ok ()
  left : ∀ path, (store.records (runtime.memoryId path)).map
    (fun record => (record.metadata.version, record.revision)) = recordAfter path log

variable {now : Time}

theorem decodeRow_eq (own : ReceiptOf runtime request receipt)
    (id : request.operation.id = operation.id)
    (input : row.toOperationLedgerInput = runtime.operationInput request.operation receipt now)
    (sequence : 1 ≤ row.sequence) : runtime.decodeRow operation row =
      if request.operation.fingerprint = operation.fingerprint then .ok receipt
      else .error .operationConflict := by
  have sound := MutationReceipt.decode_encode own.sound
  have token : ¬∃ version ∈ receipt.version,
      version ≠ runtime.versionToken receipt.path operation.id := by
    rintro ⟨version, carried, different⟩
    rw [own.version] at carried
    cases body : request.body with
    | write content =>
      rw [body] at carried
      cases carried
      rw [own.path, id] at different
      exact different rfl
    | delete =>
      rw [body] at carried
      cases carried
  have digest : row.requestDigest = request.operation.fingerprint := by rw [input]; rfl
  have result : row.resultRef = some receipt.encode := by rw [input]; rfl
  have fields : ¬(row.operationId ≠ runtime.operationId operation.id ∨
      row.resourceKind ≠ resourceMemory ∨ row.status ≠ .succeeded ∨ row.executionId ≠ none ∨
      row.resultDigest ≠ none ∨ row.errorCode ≠ none ∨ row.compactable = false ∨
      row.sequence < 1) := by
    rw [input, ← id]
    simp [RuntimeMemoryStore.operationInput, Nat.one_le_iff_ne_zero.mp sequence]
  have target : ¬(row.resourceId ≠ runtime.memoryId receipt.path ∨
      row.operationKind ≠ receipt.kind.operation) := by
    rw [input]
    simp [RuntimeMemoryStore.operationInput]
  unfold RuntimeMemoryStore.decodeRow
  split
  case isTrue same =>
    have equal : ¬row.requestDigest ≠ operation.fingerprint := not_not.mpr (digest.trans same)
    rw [refuse_of_not equal, ok_bind, refuse_of_not fields, ok_bind, result, orRaise, ok_bind,
      sound, ok_bind, refuse_of_not target, ok_bind, refuse_of_not token]
    rfl
  case isFalse different =>
    have apart : row.requestDigest ≠ operation.fingerprint := digest ▸ different
    rw [refuse_of apart]
    rfl

section

variable (ledger : LedgerOf runtime store log)
include ledger

theorem getReceipt_present (member : entry ∈ log)
    (valid : validateOperation request.operation = .ok ())
    (id : entry.request.operation.id = request.operation.id) :
    runtime.getReceipt store request.operation =
      if entry.request.operation.fingerprint = request.operation.fingerprint then
        .ok (some entry.receipt) else .error .operationConflict := by
  obtain ⟨row, now, found, input, sequence⟩ := ledger.rows entry member
  rw [RuntimeMemoryStore.getReceipt, valid, ok_bind, ← id, found]
  dsimp only
  rw [decodeRow_eq (ledger.receipts entry member) id input sequence]
  split
  case isTrue => rfl
  case isFalse => rfl

theorem getReceipt_absent (valid : validateOperation request.operation = .ok ())
    (absent : ∀ entry ∈ log, entry.request.operation.id ≠ request.operation.id) :
    runtime.getReceipt store request.operation = .ok none := by
  have none : store.operations (runtime.operationId request.operation.id) = none := by
    rw [Option.eq_none_iff_forall_ne_some]
    intro row found
    obtain ⟨entry, member, same⟩ := ledger.known _ row found
    exact absent entry member (runtime.operationId_injective same)
  rw [RuntimeMemoryStore.getReceipt, valid, ok_bind, none]
  rfl

theorem operations_isSome_iff {id : String} :
    store.operations (runtime.operationId id) ≠ none ↔
      ∃ entry ∈ log, entry.request.operation.id = id := by
  constructor
  · intro some
    obtain ⟨row, found⟩ := Option.ne_none_iff_exists'.mp some
    obtain ⟨entry, member, same⟩ := ledger.known _ row found
    exact ⟨entry, member, runtime.operationId_injective same⟩
  · rintro ⟨entry, member, rfl⟩
    obtain ⟨row, now, found, _⟩ := ledger.rows entry member
    rw [found]
    exact Option.some_ne_none _

end

theorem record_eq (records : RecordsOf runtime store log) :
    runtime.record store path = .ok (store.records (runtime.memoryId path)) := by
  unfold RuntimeMemoryStore.record
  cases found : store.records (runtime.memoryId path) with
  | none => rfl
  | some record =>
    dsimp only
    rw [records.valid path record found]
    rfl

def Saw (log : List Committed) (path : String) (readAt : Nat) (current : Option MemoryRecord) :
    Prop :=
  current.map (fun record => (record.metadata.version, record.revision)) =
    recordAfter path (log.take readAt)

structure RecordFor (runtime : RuntimeMemoryStore) (request : MutationRequest)
    (next : MemoryRecord) : Prop where
  memoryId : next.memoryId = runtime.memoryId request.path
  scope : next.memoryScopeDigest = runtime.memoryScopeDigest
  metadata : next.metadata = ⟨request.path, runtime.versionToken request.path request.operation.id,
    runtime.operationId request.operation.id⟩

structure ReadyToApply (runtime : RuntimeMemoryStore) (log : List Committed)
    (request : MutationRequest) (readAt : Nat) (current : Option MemoryRecord)
    (receipt : MutationReceipt) (prepared : Prepared) : Prop where
  readBefore : readAt ≤ log.length
  saw : Saw log request.path readAt current
  positive : ∀ record ∈ current, 1 ≤ record.revision
  expected : request.expectedVersion = current.map fun record => record.metadata.version
  own : ReceiptOf runtime request receipt
  existed : receipt.existed = current.isSome
  prepared : match prepared with
    | .write next => request.body.kind = .write ∧ RecordFor runtime request next
    | .delete => request.body.kind = .delete

/-- An answer is that of the one mutation of its operation, or an error that is not one of
integrity. -/
def Answered (log : List Committed) (request : MutationRequest) :
    Except MemoryError MemoryMutation → Prop
  | .ok mutation => ∃ entry ∈ log, SameMutation entry request ∧
      mutation.version = entry.receipt.version ∧ mutation.existed = entry.receipt.existed
  | .error error => ∀ code, error ≠ .ai code

def PhaseKept (runtime : RuntimeMemoryStore) (log : List Committed) (request : MutationRequest)
    (readAt : Nat) : CallPhase → Prop
  | .applying current receipt prepared =>
    ReadyToApply runtime log request readAt current receipt prepared
  | .replaying => ∃ entry ∈ log, SameMutation entry request
  | .done answer => Answered log request answer
  | _ => True

structure CallKept (runtime : RuntimeMemoryStore) (log : List Committed) (call : MemoryCall) :
    Prop where
  valid : (∃ answer, call.phase = .done answer) ∨
    validateOperation call.request.operation = .ok () ∧
      normalizePath call.request.path = .ok call.request.path
  phase : PhaseKept runtime log call.request call.readAt call.phase

theorem CallKept.grow (kept : CallKept runtime log call) : CallKept runtime (log ++ more) call := by
  refine ⟨kept.valid, ?_⟩
  have phase := kept.phase
  cases reached : call.phase with
  | lookingUp => trivial
  | reading => trivial
  | conflicted => trivial
  | applying current =>
    rw [reached] at phase
    have readBefore : call.readAt ≤ log.length := phase.readBefore
    have longer : call.readAt ≤ (log ++ more).length := by
      rw [length_append]
      exact Nat.le_add_right_of_le readBefore
    have saw : Saw (log ++ more) call.request.path call.readAt current := by
      rw [Saw, take_append_of_le_length readBefore]
      exact phase.saw
    exact { phase with readBefore := longer, saw := saw }
  | replaying =>
    rw [reached] at phase
    obtain ⟨entry, member, same⟩ := phase
    exact ⟨entry, mem_append_left _ member, same⟩
  | done answer =>
    rw [reached] at phase
    cases answer with
    | error error => exact phase
    | ok mutation =>
      obtain ⟨entry, member, same⟩ := phase
      exact ⟨entry, mem_append_left _ member, same⟩

theorem lookUp_committed (ledger : LedgerOf runtime store log) (member : entry ∈ log)
    (valid : validateOperation request.operation = .ok ())
    (id : entry.request.operation.id = request.operation.id) : runtime.lookUp store request = .done
      (if entry.request.operation.fingerprint = request.operation.fingerprint ∧
          entry.receipt.path = request.path ∧ entry.receipt.kind = request.body.kind then
        .ok (entry.receipt.mutation true) else .error .operationConflict) := by
  unfold RuntimeMemoryStore.lookUp
  rw [getReceipt_present ledger member valid id]
  by_cases fingerprint : entry.request.operation.fingerprint = request.operation.fingerprint
  case neg => rw [if_neg fingerprint, if_neg fun same => fingerprint same.1]
  case pos =>
    rw [if_pos fingerprint]
    dsimp only
    unfold RuntimeMemoryStore.replay MutationReceipt.requireTarget
    by_cases target : entry.receipt.path = request.path ∧ entry.receipt.kind = request.body.kind
    case pos =>
      have allowed : ¬(entry.receipt.path ≠ request.path ∨
          entry.receipt.kind ≠ request.body.kind) := by
        rw [not_or, not_not, not_not]
        exact target
      rw [refuse_of_not allowed, if_pos ⟨fingerprint, target⟩]
      rfl
    case neg =>
      have refused : entry.receipt.path ≠ request.path ∨
          entry.receipt.kind ≠ request.body.kind := by
        rw [not_and_or] at target
        exact target
      rw [refuse_of refused, if_neg fun same => target same.2]
      rfl

theorem answered_committed (member : entry ∈ log)
    (id : entry.request.operation.id = request.operation.id) : Answered log request
      (if entry.request.operation.fingerprint = request.operation.fingerprint ∧
          entry.receipt.path = request.path ∧ entry.receipt.kind = request.body.kind then
        .ok (entry.receipt.mutation true) else .error .operationConflict) := by
  split
  case isTrue same =>
    have operation : entry.request.operation = request.operation := by
      cases own : entry.request.operation
      cases others : request.operation
      rw [own, others] at id same
      cases id
      cases same.1
      rfl
    exact ⟨entry, member, ⟨operation, same.2.1, same.2.2⟩, rfl, rfl⟩
  case isFalse => exact fun _ => nofun

theorem lookUp_kept (ledger : LedgerOf runtime store log)
    (valid : validateOperation call.request.operation = .ok ()) :
    PhaseKept runtime log call.request call.readAt (runtime.lookUp store call.request) := by
  by_cases committed : ∃ entry ∈ log, entry.request.operation.id = call.request.operation.id
  case pos =>
    obtain ⟨entry, member, id⟩ := committed
    rw [lookUp_committed ledger member valid id]
    exact answered_committed member id
  case neg =>
    have absent : ∀ entry ∈ log, entry.request.operation.id ≠ call.request.operation.id :=
      fun entry member id => committed ⟨entry, member, id⟩
    rw [RuntimeMemoryStore.lookUp, getReceipt_absent ledger valid absent]
    trivial

theorem replayed_kept (ledger : LedgerOf runtime store log)
    (valid : validateOperation call.request.operation = .ok ()) (member : entry ∈ log)
    (same : SameMutation entry call.request) :
    Answered log call.request (runtime.replayed store call.request) := by
  have id : entry.request.operation.id = call.request.operation.id :=
    congrArg MemoryOperation.id same.operation
  have answer := lookUp_committed ledger member valid id
  have fingerprint : entry.request.operation.fingerprint = call.request.operation.fingerprint :=
    congrArg MemoryOperation.fingerprint same.operation
  rw [RuntimeMemoryStore.lookUp, getReceipt_present ledger member valid id,
    if_pos fingerprint] at answer
  rw [RuntimeMemoryStore.replayed, getReceipt_present ledger member valid id,
    if_pos fingerprint, ok_bind, orRaise, ok_bind, CallPhase.done.inj answer]
  exact answered_committed member id

theorem conflicted_kept :
    Answered log call.request (.error (runtime.mapMutationError store call.request)) := by
  unfold RuntimeMemoryStore.mapMutationError
  split
  case isTrue => exact fun _ => nofun
  case isFalse => exact fun _ => nofun

theorem read_kept (records : RecordsOf runtime store log)
    (normal : normalizePath call.request.path = .ok call.request.path)
    (ran : runtime.read store call.request now reference = .ok phase) :
    PhaseKept runtime log call.request log.length phase := by
  unfold RuntimeMemoryStore.read at ran
  rw [record_eq records, ok_bind] at ran
  obtain ⟨_, checked, ran⟩ := bind_eq_ok.mp ran
  obtain ⟨⟨receipt, prepared⟩, prepares, ran⟩ := bind_eq_ok.mp ran
  cases ran
  have left := records.left call.request.path
  generalize found : store.records (runtime.memoryId call.request.path) = current
    at checked prepares left ⊢
  have positive : ∀ record ∈ current, 1 ≤ record.revision := by
    rintro record rfl
    have checks := records.valid _ record found
    rw [RuntimeMemoryStore.validateRecord, refuse_eq_ok, not_or, not_or, not_or] at checks
    exact Nat.le_of_not_lt checks.2.2.1
  have expected : call.request.expectedVersion =
      current.map fun record => record.metadata.version := by
    cases current with
    | none =>
      rw [checkVersion, refuse_eq_ok, not_not] at checked
      exact checked
    | some record =>
      obtain ⟨_, _, checked⟩ := bind_eq_ok.mp checked
      rw [refuse_eq_ok, not_not] at checked
      exact checked
  have saw : Saw log call.request.path log.length current := by
    rw [Saw, take_length]
    exact left
  unfold RuntimeMemoryStore.prepare at prepares
  cases body : call.request.body with
  | write content =>
    rw [body] at prepares
    obtain ⟨stored, _, prepares⟩ := bind_eq_ok.mp prepares
    cases prepares
    refine ⟨le_refl _, saw, positive, expected, ⟨rfl, ?_, normal, ?_⟩, rfl, ?_, rfl, rfl, rfl⟩
    · exact (congrArg MutationBody.kind body).symm
    · dsimp only
      rw [body]
    · exact congrArg MutationBody.kind body
  | delete =>
    rw [body] at prepares
    cases prepares
    refine ⟨le_refl _, saw, positive, expected, ⟨rfl, ?_, normal, ?_⟩, rfl, ?_⟩
    · exact (congrArg MutationBody.kind body).symm
    · dsimp only
      rw [body]
    · exact congrArg MutationBody.kind body

variable {error : MemoryError}

theorem read_error_kept (records : RecordsOf runtime store log)
    (failed : runtime.read store call.request now reference = .error error) :
    Answered log call.request (.error error) := by
  unfold RuntimeMemoryStore.read at failed
  rw [record_eq records, ok_bind] at failed
  generalize found : store.records (runtime.memoryId call.request.path) = current at failed
  intro code
  cases bind_eq_error.mp failed with
  | inl unchecked =>
    cases current with
    | none =>
      rw [checkVersion, refuse_eq_error] at unchecked
      rw [← unchecked.2]
      exact nofun
    | some record =>
      have valid := records.valid _ record found
      rw [RuntimeMemoryStore.validateRecord, refuse_eq_ok, not_or, not_or, not_or, not_or] at valid
      cases bind_eq_error.mp unchecked with
      | inl malformed => exact absurd (refuse_eq_error.mp malformed).1 valid.2.2.2.1
      | inr compared =>
        obtain ⟨_, _, different⟩ := compared
        rw [← (refuse_eq_error.mp different).2]
        exact nofun
  | inr checked =>
    obtain ⟨_, _, unprepared⟩ := checked
    cases bind_eq_error.mp unprepared with
    | inr impossible =>
      obtain ⟨_, _, impossible⟩ := impossible
      cases impossible
    | inl failed =>
      unfold RuntimeMemoryStore.prepare at failed
      cases body : call.request.body with
      | delete =>
        rw [body] at failed
        cases failed
      | write content =>
        rw [body] at failed
        cases bind_eq_error.mp failed with
        | inr impossible =>
          obtain ⟨_, _, impossible⟩ := impossible
          cases impossible
        | inl unstored =>
          unfold RuntimeMemoryStore.storedContent at unstored
          split at unstored
          case isTrue => cases unstored
          case isFalse =>
            cases reference with
            | none =>
              cases unstored
              exact nofun
            | some reference => cases unstored

open MemoryStore

variable {row : OperationLedgerRecord} {after : MemoryStore}

theorem insert_kept (ledger : LedgerOf runtime store log) (own : ReceiptOf runtime request receipt)
    (absent : ∀ entry ∈ log, entry.request.operation.id ≠ request.operation.id)
    (input : row.toOperationLedgerInput = runtime.operationInput request.operation receipt now)
    (sequence : 1 ≤ row.sequence)
    (inserted : after.operations = update store.operations row.operationId (some row)) :
    LedgerOf runtime after (log ++ [⟨request, receipt, readAt⟩]) := by
  have key : row.operationId = runtime.operationId request.operation.id := by rw [input]; rfl
  rw [key] at inserted
  refine ⟨fun entry member => ?_, fun other row' found => ?_, ?_, fun entry member => ?_⟩
  · rw [inserted]
    cases mem_append.mp member with
    | inl earlier =>
      have different : runtime.operationId entry.request.operation.id ≠
          runtime.operationId request.operation.id :=
        fun same => absent entry earlier (runtime.operationId_injective same)
      rw [update_of_ne different]
      exact ledger.rows entry earlier
    | inr newer =>
      rw [mem_singleton.mp newer, update_self]
      exact ⟨row, now, rfl, input, sequence⟩
  · rw [inserted] at found
    by_cases own : other = runtime.operationId request.operation.id
    case pos => exact ⟨_, mem_append_right _ mem_cons_self, own.symm⟩
    case neg =>
      rw [update_of_ne own] at found
      obtain ⟨entry, member, same⟩ := ledger.known other row' found
      exact ⟨entry, mem_append_left _ member, same⟩
  · rw [map_append, nodup_append]
    refine ⟨ledger.distinct, nodup_singleton _, ?_⟩
    intro left old right new
    obtain ⟨entry, member, rfl⟩ := mem_map.mp old
    rw [mem_singleton.mp new]
    exact absent entry member
  · cases mem_append.mp member with
    | inl earlier => exact ledger.receipts entry earlier
    | inr newer =>
      rw [mem_singleton.mp newer]
      exact own

theorem setRecord_kept {next : Option MemoryRecord} (records : RecordsOf runtime store log)
    (written : after.records =
      update store.records (runtime.memoryId entry.receipt.path) next)
    (valid : ∀ record ∈ next, runtime.validateRecord entry.receipt.path record = .ok ())
    (effect : next.map (fun record => (record.metadata.version, record.revision)) =
      entry.effect entry.receipt.path (recordAfter entry.receipt.path log)) :
    RecordsOf runtime after (log ++ [entry]) := by
  refine ⟨fun path record found => ?_, fun path => ?_⟩
  · rw [written] at found
    by_cases own : path = entry.receipt.path
    case pos =>
      rw [own, update_self] at found
      rw [own]
      exact valid record found
    case neg =>
      rw [update_of_ne fun same => own (runtime.memoryId_injective same)] at found
      exact records.valid path record found
  · rw [written, recordAfter_append_single]
    by_cases own : path = entry.receipt.path
    case pos =>
      rw [own, update_self]
      exact effect
    case neg =>
      rw [update_of_ne fun same => own (runtime.memoryId_injective same), records.left,
        Committed.effect, if_pos (Ne.symm own)]

theorem sameMutation_of_matches (own : ReceiptOf runtime call.request receipt)
    (input : row.toOperationLedgerInput =
      runtime.operationInput entry.request.operation entry.receipt then_)
    (replays : operationReplayMatches row
      (runtime.operationInput call.request.operation receipt now)) :
    SameMutation entry call.request := by
  rw [operationReplayMatches, input] at replays
  have id := runtime.operationId_injective (congrArg OperationLedgerInput.operationId replays)
  have fingerprint : entry.request.operation.fingerprint = call.request.operation.fingerprint :=
    congrArg OperationLedgerInput.requestDigest replays
  have path := runtime.memoryId_injective (congrArg OperationLedgerInput.resourceId replays)
  have kind := MutationKind.operation_inj.mp (congrArg OperationLedgerInput.operationKind replays)
  refine ⟨?_, path.trans own.path, kind.trans own.kind⟩
  cases left : entry.request.operation
  cases right : call.request.operation
  rw [left, right] at id fingerprint
  cases id
  cases fingerprint
  rfl

theorem reserve_absent (ledger : LedgerOf runtime store log)
    (absent : ∀ entry ∈ log, entry.request.operation.id ≠ request.operation.id) :
    store.reserveOperation (runtime.operationInput request.operation receipt now) =
      .ok ({ runtime.operationInput request.operation receipt now with
        sequence := store.sequences (runtime.memoryId receipt.path) + 1 }, false) := by
  have unknown :
      store.operations (runtime.operationInput request.operation receipt now).operationId =
        none := by
    by_contra some
    obtain ⟨entry, member, id⟩ := (operations_isSome_iff ledger).mp some
    exact absent entry member id
  rw [reserveOperation, unknown]
  rfl

theorem reserve_present (ledger : LedgerOf runtime store log) (member : entry ∈ log)
    (own : ReceiptOf runtime call.request receipt)
    (id : entry.request.operation.id = call.request.operation.id) :
    store.reserveOperation (runtime.operationInput call.request.operation receipt now) =
        .error (.ai .storageConflict) ∨
      ∃ row, store.reserveOperation (runtime.operationInput call.request.operation receipt now) =
          .ok (row, true) ∧ SameMutation entry call.request ∧ row.status = .succeeded ∧
        row.resultRef = some entry.receipt.encode := by
  obtain ⟨row, earlier, found, input, _⟩ := ledger.rows entry member
  have stored :
      store.operations (runtime.operationInput call.request.operation receipt now).operationId =
        some row := by
    change store.operations (runtime.operationId call.request.operation.id) = some row
    rw [← id, found]
  rw [reserveOperation, stored]
  dsimp only
  split
  case isTrue replays =>
    refine .inr ⟨row, rfl, sameMutation_of_matches own input replays, ?_, ?_⟩
    · rw [input]
      rfl
    · rw [input]
      rfl
  case isFalse => exact .inl rfl

theorem checkOperation_ok (own : ReceiptOf runtime request receipt)
    (same : request.body.kind = kind) :
    checkOperation runtime.tenantId (runtime.memoryId request.path) kind
      (runtime.operationInput request.operation receipt now) = .ok () := by
  have target : ¬((runtime.operationInput request.operation receipt now).resourceKind ≠
        resourceMemory ∨ (runtime.operationInput request.operation receipt now).resourceId ≠
        runtime.memoryId request.path ∨
      (runtime.operationInput request.operation receipt now).operationKind ≠ kind.operation) := by
    rw [not_or, not_or, not_not, not_not, not_not]
    exact ⟨rfl, congrArg runtime.memoryId own.path,
      congrArg MutationKind.operation (own.kind.trans same)⟩
  have tenant : ¬(runtime.operationInput request.operation receipt now).tenantId ≠
      runtime.tenantId := not_not.mpr rfl
  rw [checkOperation, refuse_of_not tenant, ok_bind, refuse_of_not target]

inductive Outcome (runtime : RuntimeMemoryStore) (store : MemoryStore) (log : List Committed)
    (call : MemoryCall) (receipt : MutationReceipt) : MemoryStore → CallPhase → Prop
  | unchanged {phase : CallPhase} (kept : PhaseKept runtime log call.request call.readAt phase)
      (later : ∀ current receipt prepared, phase ≠ .applying current receipt prepared) :
      Outcome runtime store log call receipt store phase
  | committed {after : MemoryStore}
      (absent : ∀ entry ∈ log, entry.request.operation.id ≠ call.request.operation.id)
      (ledger : LedgerOf runtime after (log ++ [⟨call.request, receipt, call.readAt⟩]))
      (records : RecordsOf runtime after (log ++ [⟨call.request, receipt, call.readAt⟩]))
      (guarded : Guarded log ⟨call.request, receipt, call.readAt⟩) :
      Outcome runtime store log call receipt after (.done (.ok (receipt.mutation false)))

theorem failed_conflict : Outcome runtime store log call receipt store
      (RuntimeMemoryStore.failed (.ai .storageConflict)) := by
  have conflicted : RuntimeMemoryStore.failed (.ai .storageConflict) = .conflicted := if_pos rfl
  rw [conflicted]
  exact .unchanged trivial fun _ _ _ => nofun

variable {current : Option MemoryRecord} {next : MemoryRecord}

theorem guarded_of_ready
    (ready : ReadyToApply runtime log call.request call.readAt current receipt prepared)
    (revision : receipt.version ≠ none ∨ receipt.existed = true →
      (recordAfter call.request.path log).map Prod.snd = current.map MemoryRecord.revision) :
    Guarded log ⟨call.request, receipt, call.readAt⟩ := by
  have saw := ready.saw
  rw [Saw] at saw
  refine ⟨ready.readBefore, ?_, ?_, ?_⟩
  · dsimp only
    rw [← saw, ready.expected, Option.map_map]
    rfl
  · dsimp only
    rw [← saw, ready.existed, Option.isSome_map]
  · intro changes
    dsimp only
    rw [revision changes, ← saw, Option.map_map]
    rfl

variable {expected : Option Nat}

theorem applyWrite_present (ledger : LedgerOf runtime store log)
    (member : entry ∈ log) (own : ReceiptOf runtime call.request receipt)
    (kind : call.request.body.kind = .write) (made : RecordFor runtime call.request next)
    (id : entry.request.operation.id = call.request.operation.id) :
    store.applyWrite runtime.tenantId next expected
        (runtime.operationInput call.request.operation receipt now) =
          .error (.ai .storageConflict) ∨ store.applyWrite runtime.tenantId next expected
          (runtime.operationInput call.request.operation receipt now) =
            .ok (⟨none, true⟩, store) ∧ SameMutation entry call.request := by
  rw [applyWrite, made.memoryId, checkOperation_ok own kind, ok_bind]
  cases reserve_present ledger member own id with
  | inl conflict =>
    rw [conflict]
    exact .inl rfl
  | inr replays =>
    obtain ⟨row, reserved, same, _⟩ := replays
    rw [reserved]
    exact .inr ⟨rfl, same⟩

theorem applyWrite_absent (ledger : LedgerOf runtime store log)
    (absent : ∀ entry ∈ log, entry.request.operation.id ≠ call.request.operation.id)
    (own : ReceiptOf runtime call.request receipt)
    (kind : call.request.body.kind = .write) (made : RecordFor runtime call.request next) :
    store.applyWrite runtime.tenantId next expected
        (runtime.operationInput call.request.operation receipt now) = do
      let stored ← nextValue next expected (store.records (runtime.memoryId call.request.path))
      return (⟨some stored, false⟩,
        (store.setRecord (runtime.memoryId call.request.path) (some stored)).insertOperation
          { runtime.operationInput call.request.operation receipt now with
            sequence := store.sequences (runtime.memoryId receipt.path) + 1 }) := by
  rw [applyWrite, made.memoryId, checkOperation_ok own kind, ok_bind, reserve_absent ledger absent]
  rfl

theorem nextValue_ok (positive : ∀ record ∈ current, 1 ≤ record.revision)
    (written : nextValue next (current.map MemoryRecord.revision) found = .ok stored) :
    stored = { next with revision := (found.map MemoryRecord.revision).getD 0 + 1 } ∧
      found.map MemoryRecord.revision = current.map MemoryRecord.revision := by
  cases found with
  | none =>
    obtain ⟨_, guarded, written⟩ := bind_eq_ok.mp written
    cases written
    rw [refuse_eq_ok] at guarded
    refine ⟨rfl, ?_⟩
    cases current with
    | none => rfl
    | some record =>
      have revision := positive record rfl
      refine absurd ⟨Option.some_ne_none _, fun zero => ?_⟩ guarded
      have none := Option.some.inj zero
      omega
  | some value =>
    obtain ⟨_, _, written⟩ := bind_eq_ok.mp written
    obtain ⟨_, guarded, written⟩ := bind_eq_ok.mp written
    cases written
    rw [refuse_eq_ok, not_not] at guarded
    exact ⟨rfl, guarded.symm⟩

theorem error_of_refuse {α : Type} {condition : Prop} [Decidable condition]
    {raised error : MemoryError} {value : α}
    (failed : (do refuse condition raised; return value) = .error error) : error = raised := by
  cases bind_eq_error.mp failed with
  | inl conflict => exact (refuse_eq_error.mp conflict).2.symm
  | inr impossible =>
    obtain ⟨_, _, impossible⟩ := impossible
    cases impossible

theorem nextValue_error (positive : ∀ record ∈ found, 1 ≤ record.revision)
    (failed : nextValue next expected found = .error error) : error = .ai .storageConflict := by
  cases found with
  | none => exact error_of_refuse failed
  | some value =>
    rw [nextValue, refuse_of_not (not_lt.mpr (positive value rfl)), ok_bind] at failed
    exact error_of_refuse failed

theorem RecordsOf.positive (records : RecordsOf runtime store log) :
    ∀ record ∈ store.records (runtime.memoryId path), 1 ≤ record.revision := by
  intro record found
  have checks := records.valid path record found
  rw [RuntimeMemoryStore.validateRecord, refuse_eq_ok, not_or, not_or, not_or] at checks
  exact Nat.le_of_not_lt checks.2.2.1

section

variable (ledger : LedgerOf runtime store log)
include ledger

theorem applyWrite_outcome (records : RecordsOf runtime store log)
    (ready : ReadyToApply runtime log call.request call.readAt current receipt (.write next)) :
    Outcome runtime store log call receipt
      (runtime.apply store call.request now current receipt (.write next)).1
      (runtime.apply store call.request now current receipt (.write next)).2 := by
  obtain ⟨kind, made⟩ := ready.prepared
  have own := ready.own
  unfold RuntimeMemoryStore.apply
  dsimp only
  by_cases committed : ∃ entry ∈ log, entry.request.operation.id = call.request.operation.id
  case pos =>
    obtain ⟨entry, member, id⟩ := committed
    cases applyWrite_present ledger member own kind made id with
    | inl conflict =>
      rw [conflict]
      exact failed_conflict
    | inr replays =>
      rw [replays.1]
      exact .unchanged ⟨entry, member, replays.2⟩ fun _ _ _ => nofun
  case neg =>
    have absent : ∀ entry ∈ log, entry.request.operation.id ≠ call.request.operation.id :=
      fun entry member id => committed ⟨entry, member, id⟩
    rw [applyWrite_absent ledger absent own kind made]
    cases written : nextValue next (current.map MemoryRecord.revision)
        (store.records (runtime.memoryId call.request.path)) with
    | error error =>
      rw [nextValue_error records.positive written]
      exact failed_conflict
    | ok stored =>
      obtain ⟨next, revision⟩ := nextValue_ok ready.positive written
      have left := records.left call.request.path
      have version : receipt.version =
          some (runtime.versionToken call.request.path call.request.operation.id) := by
        rw [own.version]
        cases body : call.request.body with
        | write content => rfl
        | delete =>
          rw [body] at kind
          cases kind
      have valid : ∀ record ∈ some stored, runtime.validateRecord receipt.path record = .ok () := by
        intro record member
        cases member
        rw [RuntimeMemoryStore.validateRecord, refuse_eq_ok, next]
        simp [made.memoryId, made.scope, made.metadata, own.path, runtime.versionToken_valid]
      have effect : (some stored).map (fun record => (record.metadata.version, record.revision)) =
          (⟨call.request, receipt, call.readAt⟩ : Committed).effect receipt.path
            (recordAfter receipt.path log) := by
        rw [Committed.effect, if_neg (not_not.mpr rfl)]
        dsimp only
        rw [version, own.path, ← left, Option.map_map, Option.map_some, next, made.metadata]
        rfl
      refine .committed absent (insert_kept ledger own absent rfl (Nat.le_add_left 1 _) rfl)
        (setRecord_kept records ?_ valid effect) (guarded_of_ready ready fun _ => ?_)
      · dsimp only
        rw [own.path]
        rfl
      · rw [← left, ← revision, Option.map_map]
        rfl

theorem applyDelete_present (member : entry ∈ log)
    (own : ReceiptOf runtime call.request receipt) (kind : call.request.body.kind = .delete)
    (id : entry.request.operation.id = call.request.operation.id) :
    store.applyDelete runtime.tenantId (runtime.memoryId call.request.path) expected
        (runtime.operationInput call.request.operation receipt now) =
          .error (.ai .storageConflict) ∨
      store.applyDelete runtime.tenantId (runtime.memoryId call.request.path) expected
          (runtime.operationInput call.request.operation receipt now) =
            .ok (⟨entry.receipt.existed, true⟩, store) ∧ SameMutation entry call.request := by
  rw [applyDelete, checkOperation_ok own kind, ok_bind]
  cases reserve_present ledger member own id with
  | inl conflict =>
    rw [conflict]
    exact .inl rfl
  | inr replays =>
    obtain ⟨row, reserved, same, status, result⟩ := replays
    have receipts := ledger.receipts entry member
    have deletes : entry.receipt.kind = .delete := same.kind.trans kind
    have none : entry.receipt.version = none := by
      have sound := receipts.sound.version
      rw [deletes] at sound
      exact sound
    have answer := MutationReceipt.deleteReplayResult_encode deletes none
    rw [reserved, ok_bind]
    dsimp only
    rw [if_pos rfl, result, status, Option.filter_some, if_pos (decide_eq_true rfl), orRaise,
      ok_bind, answer]
    exact .inr ⟨rfl, same⟩

theorem applyDelete_absent
    (absent : ∀ entry ∈ log, entry.request.operation.id ≠ call.request.operation.id)
    (own : ReceiptOf runtime call.request receipt) (kind : call.request.body.kind = .delete) :
    store.applyDelete runtime.tenantId (runtime.memoryId call.request.path) expected
        (runtime.operationInput call.request.operation receipt now) = do
      let (existed, left) ← deleted expected (store.records (runtime.memoryId call.request.path))
      return (⟨existed, false⟩,
        (store.setRecord (runtime.memoryId call.request.path) left).insertOperation
          { runtime.operationInput call.request.operation receipt now with
            sequence := store.sequences (runtime.memoryId receipt.path) + 1 }) := by
  rw [applyDelete, checkOperation_ok own kind, ok_bind, reserve_absent ledger absent]
  rfl

end

/-- A deletion removes the record that the caller has seen, or leaves what it has not seen. -/
theorem deleted_ok (positive : ∀ record ∈ current, 1 ≤ record.revision)
    (removed : deleted (some ((current.map MemoryRecord.revision).getD 0)) found =
      .ok (existed, left)) : existed = current.isSome ∧ (current.isSome = true ∧ left = none ∧
          found.map MemoryRecord.revision = current.map MemoryRecord.revision ∨
        current.isSome = false ∧ left = found) := by
  cases current with
  | none =>
    cases found with
    | none =>
      obtain ⟨_, _, removed⟩ := bind_eq_ok.mp removed
      cases removed
      exact ⟨rfl, .inr ⟨rfl, rfl⟩⟩
    | some value =>
      obtain ⟨_, _, removed⟩ := bind_eq_ok.mp removed
      have unseen : some (((none : Option MemoryRecord).map MemoryRecord.revision).getD 0) =
          some 0 := rfl
      rw [if_pos unseen] at removed
      cases removed
      exact ⟨rfl, .inr ⟨rfl, rfl⟩⟩
  | some record =>
    have revision := positive record rfl
    have seen : ¬(some record.revision = some 0) := by
      intro zero
      have none := Option.some.inj zero
      omega
    cases found with
    | none =>
      obtain ⟨_, guarded, _⟩ := bind_eq_ok.mp removed
      rw [refuse_eq_ok] at guarded
      exact absurd ⟨Option.some_ne_none _, seen⟩ guarded
    | some value =>
      obtain ⟨_, _, removed⟩ := bind_eq_ok.mp removed
      have known : ¬(some (((some record).map MemoryRecord.revision).getD 0) = some 0) := seen
      rw [if_neg known] at removed
      obtain ⟨_, guarded, removed⟩ := bind_eq_ok.mp removed
      cases removed
      rw [refuse_eq_ok, not_not] at guarded
      exact ⟨rfl, .inl ⟨rfl, rfl, guarded.symm⟩⟩

theorem deleted_error (positive : ∀ record ∈ found, 1 ≤ record.revision)
    (failed : deleted expected found = .error error) : error = .ai .storageConflict := by
  cases found with
  | none => exact error_of_refuse failed
  | some value =>
    rw [deleted, refuse_of_not (not_lt.mpr (positive value rfl)), ok_bind] at failed
    split at failed
    case isTrue => cases failed
    case isFalse => exact error_of_refuse failed

theorem applyDelete_outcome (ledger : LedgerOf runtime store log)
    (records : RecordsOf runtime store log)
    (ready : ReadyToApply runtime log call.request call.readAt current receipt .delete) :
    Outcome runtime store log call receipt
      (runtime.apply store call.request now current receipt .delete).1
      (runtime.apply store call.request now current receipt .delete).2 := by
  have kind : call.request.body.kind = .delete := ready.prepared
  have own := ready.own
  unfold RuntimeMemoryStore.apply
  dsimp only
  by_cases committed : ∃ entry ∈ log, entry.request.operation.id = call.request.operation.id
  case pos =>
    obtain ⟨entry, member, id⟩ := committed
    cases applyDelete_present ledger member own kind id with
    | inl conflict =>
      rw [conflict]
      exact failed_conflict
    | inr replays =>
      rw [replays.1]
      exact .unchanged ⟨entry, member, replays.2⟩ fun _ _ _ => nofun
  case neg =>
    have absent : ∀ entry ∈ log, entry.request.operation.id ≠ call.request.operation.id :=
      fun entry member id => committed ⟨entry, member, id⟩
    rw [applyDelete_absent ledger absent own kind]
    cases removed : deleted (some ((current.map MemoryRecord.revision).getD 0))
        (store.records (runtime.memoryId call.request.path)) with
    | error error =>
      rw [deleted_error records.positive removed]
      exact failed_conflict
    | ok answer =>
      obtain ⟨existed, left⟩ := answer
      obtain ⟨rfl, change⟩ := deleted_ok ready.positive removed
      have before := records.left call.request.path
      have version : receipt.version = none := by
        rw [own.version]
        cases body : call.request.body with
        | delete => rfl
        | write content =>
          rw [body] at kind
          cases kind
      have valid : ∀ record ∈ left, runtime.validateRecord receipt.path record = .ok () := by
        intro record stays
        cases change with
        | inl gone =>
          rw [gone.2.1] at stays
          cases stays
        | inr same =>
          rw [same.2] at stays
          rw [own.path]
          exact records.valid _ record stays
      have effect : left.map (fun record => (record.metadata.version, record.revision)) =
          (⟨call.request, receipt, call.readAt⟩ : Committed).effect receipt.path
            (recordAfter receipt.path log) := by
        rw [Committed.effect, if_neg (not_not.mpr rfl)]
        dsimp only
        rw [version, ready.existed, own.path, ← before]
        cases change with
        | inl gone =>
          rw [gone.1, gone.2.1]
          rfl
        | inr same =>
          rw [same.1, same.2]
          rfl
      have answer : (if (false : Bool) = true then CallPhase.replaying
          else if current.isSome ≠ current.isSome then .done (.error integrity)
          else .done (.ok (receipt.mutation false))) = .done (.ok (receipt.mutation false)) := by
        rw [if_neg Bool.false_ne_true, if_neg (not_not.mpr rfl)]
      rw [ok_bind]
      change Outcome runtime store log call receipt _
        (if (false : Bool) = true then CallPhase.replaying
          else if current.isSome ≠ current.isSome then .done (.error integrity)
          else .done (.ok (receipt.mutation false)))
      rw [answer]
      refine .committed absent (insert_kept ledger own absent rfl (Nat.le_add_left 1 _) rfl)
        (setRecord_kept records ?_ valid effect) (guarded_of_ready ready fun changes => ?_)
      · dsimp only
        rw [own.path]
        rfl
      · cases change with
        | inl gone =>
          rw [← before, ← gone.2.2, Option.map_map]
          rfl
        | inr same =>
          rw [version, ready.existed, same.1] at changes
          cases changes with
          | inl impossible => exact absurd rfl impossible
          | inr impossible => cases impossible

end Linktools.Memory
