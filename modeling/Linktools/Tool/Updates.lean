import Linktools.Library.Recording
import Linktools.Tool.Repository

namespace Linktools.Tool

open Linktools.Core Library

/-! The calls on tool operations as one type of labels, and the system that takes them in any
order. -/

inductive ToolCall
  | admitTool (request : ToolOperationAdmission)
  | admitInTransaction (request : ToolOperationAdmission)
      (observed : Option (Observed ToolOperationRecord)) (knownNew : Bool)
  | reserve (record : ToolOperationRecord)
  | defer (tenantId toolOperationId owner : String) (fence : Nat)
  | markEffectUnknown (tenantId toolOperationId owner : String) (fence : Nat)
      (errorCode : Option String) (write : Option (Except Raised Unit))
  | complete (tenantId toolOperationId owner : String) (fence : Nat)
      (resultPayload : StoredPayload) (observed : Option (Observed ToolOperationRecord))
  | fail (tenantId toolOperationId owner : String) (fence : Nat) (errorCode : String)
      (errorPayload : StoredPayload) (observed : Option (Observed ToolOperationRecord))
  | settleDeferredResult (expected : ToolOperationRecord) (resultPayload : Option StoredPayload)
      (errorCode : Option String) (errorPayload : Option StoredPayload)
  | reconcileTurnClaim (toolOperationId executionId : String) (producerGeneration : Nat)
      (producerClaimId : String) (turnStopping : Bool)
  | resolveEffect (toolOperationId executionId : String) (expectedFence : Nat)
      (targetStatus : ToolOperationStatus) (resultPayload : Option StoredPayload)
      (errorCode : Option String) (errorPayload : Option StoredPayload)
      (admitted : Except Raised Unit)
  | recordToolEffect (effect : ToolEffectRecord) (executionId toolOperationId : String)
      (bindingDigest : String) (recoveryAgentRunId : Option String)
      (observed : Option (Observed ToolOperationRecord))

inductive ToolAnswer
  | receipt (row : Observed ToolOperationRecord)
  | record (value : ToolOperationRecord)

/-- The answer and the store of an operation that returns a receipt. -/
def receipted (outcome : Except Raised (Observed ToolOperationRecord × ToolStore)) :
    Except Raised (ToolAnswer × ToolStore) :=
  (fun (row, after) => (.receipt row, after)) <$> outcome

def recorded (outcome : Except Raised (ToolOperationRecord × ToolStore)) :
    Except Raised (ToolAnswer × ToolStore) :=
  (fun (value, after) => (.record value, after)) <$> outcome

variable {answer : ToolAnswer} {after : ToolStore}

theorem receipted_eq_ok :
    receipted outcome = .ok (answer, after) ↔
      ∃ row, outcome = .ok (row, after) ∧ answer = .receipt row := by
  simp only [receipted, map_eq_ok, Prod.exists, Prod.mk.injEq]
  constructor
  · rintro ⟨row, _, done, rfl, rfl⟩
    exact ⟨row, done, rfl⟩
  · rintro ⟨row, done, rfl⟩
    exact ⟨row, after, done, rfl, rfl⟩

theorem recorded_eq_ok :
    recorded outcome = .ok (answer, after) ↔
      ∃ value, outcome = .ok (value, after) ∧ answer = .record value := by
  simp only [recorded, map_eq_ok, Prod.exists, Prod.mk.injEq]
  constructor
  · rintro ⟨value, _, done, rfl, rfl⟩
    exact ⟨value, done, rfl⟩
  · rintro ⟨value, done, rfl⟩
    exact ⟨value, after, done, rfl, rfl⟩

namespace ToolCall

def run (repo : ToolRepository) (store : ToolStore) (now : Time) :
    ToolCall → Except Raised (ToolAnswer × ToolStore)
  | .admitTool request =>
    receipted (ToolRepository.admitInTransaction store now request none false)
  | .admitInTransaction request observed knownNew =>
    receipted (ToolRepository.admitInTransaction store now request observed knownNew)
  | .reserve record => recorded (ToolRepository.reserve store record)
  | .defer tenantId toolOperationId owner fence =>
    recorded (repo.deferInTransaction store now tenantId toolOperationId owner fence)
  | .markEffectUnknown tenantId toolOperationId owner fence errorCode write =>
    recorded (repo.markEffectUnknown store now tenantId toolOperationId owner fence
      errorCode write)
  | .complete tenantId toolOperationId owner fence resultPayload observed =>
    receipted (repo.completeInTransaction store now tenantId toolOperationId owner fence
      resultPayload observed)
  | .fail tenantId toolOperationId owner fence errorCode errorPayload observed =>
    receipted (repo.failInTransaction store now tenantId toolOperationId owner fence
      errorCode errorPayload observed)
  | .settleDeferredResult expected resultPayload errorCode errorPayload =>
    recorded (ToolRepository.settleDeferredResult store now expected resultPayload errorCode
      errorPayload)
  | .reconcileTurnClaim toolOperationId executionId generation claimId turnStopping =>
    recorded (ToolRepository.reconcileTurnClaim store now toolOperationId executionId generation
      claimId turnStopping)
  | .resolveEffect toolOperationId executionId expectedFence targetStatus resultPayload errorCode
      errorPayload admitted =>
      recorded (ToolRepository.resolveEffect store now toolOperationId executionId expectedFence
        targetStatus resultPayload errorCode errorPayload admitted)
  | .recordToolEffect effect executionId toolOperationId bindingDigest recoveryAgentRunId
      observed =>
      receipted (ToolRepository.recordToolEffect store now effect executionId toolOperationId
        bindingDigest recoveryAgentRunId observed)

/-- `admitTool` raises on an operation whose effect is unknown, after its transaction. -/
def answered : ToolCall → ToolAnswer → Except Raised ToolAnswer
  | .admitTool _, .receipt row =>
    if row.value.status = .effectUnknown then .error (.ai .toolEffectUnknown)
    else .ok (.receipt row)
  | _, answer => .ok answer

def outcome (repo : ToolRepository) (store : ToolStore) (now : Time) (call : ToolCall) :
    Except Raised ToolAnswer :=
  (call.run repo store now).bind fun (answer, _) => call.answered answer

def receipt? : ToolCall → Option (Observed ToolOperationRecord)
  | .admitInTransaction _ observed _ => observed
  | .complete _ _ _ _ _ observed => observed
  | .fail _ _ _ _ _ _ observed => observed
  | .recordToolEffect _ _ _ _ _ observed => observed
  | _ => none

def request? : ToolCall → Option ToolOperationAdmission
  | .admitTool request => some request
  | .admitInTransaction request _ _ => some request
  | _ => none

/-- The calls by which an owner reports how the operation went. -/
def Reports : ToolCall → Prop
  | .complete .. | .fail .. | .recordToolEffect .. => True
  | _ => False

end ToolCall

abbrev ToolSystem := Recording ToolStore

/-- The receipts of the callers have been read from the store at some time. -/
def ToolSystem.Genuine (system : ToolSystem) (call : ToolCall) : Prop :=
  ∀ receipt ∈ call.receipt?, ∃ store ∈ system.seen,
    store.operations receipt.value.toolOperationId = some receipt

def ToolSystem.respond (repo : ToolRepository) (system : ToolSystem) (call : ToolCall)
    (now : Time) : ToolSystem :=
  Recording.respond (fun store label => label.1.run repo store label.2) system (call, now)

def toolMachine (repo : ToolRepository) : Machine ToolSystem (ToolCall × Time) :=
  Recording.machine (fun store label => label.1.run repo store label.2) {}
    fun system label => ToolSystem.Genuine system label.1

open ToolRepository

inductive Update (now : Time) : ToolCall → ToolOperationRecord → ToolOperationRecord → Prop
  | claimed {call : ToolCall} {request : ToolOperationAdmission}
      {current next : ToolOperationRecord} (admits : call.request? = some request)
      (pending : current.status = .pending)
      (fields : next.toToolOperationFields = { current.toToolOperationFields with
        status := .claimed
        owner := some request.owner
        fence := current.fence + 1
        producerGeneration := request.producerGeneration
        updatedAt := now }) : Update now call current next
  | deferred {tenantId owner : String} {current next : ToolOperationRecord}
      (held : current.status = .claimed) (owned : current.owner = some owner)
      (fields : next.toToolOperationFields = { current.toToolOperationFields with
        status := .pending
        owner := none
        errorCode := none
        errorPayload := none
        resultPayload := none
        updatedAt := now }) :
      Update now (.defer tenantId current.toolOperationId owner current.fence) current next
  | marked {tenantId owner : String} {errorCode : Option String}
      {write : Option (Except Raised Unit)} {current next : ToolOperationRecord}
      (held : current.status = .claimed)
      (fields : next.toToolOperationFields = { current.toToolOperationFields with
        status := .effectUnknown
        errorCode := errorCode
        updatedAt := now }) :
      Update now (.markEffectUnknown tenantId current.toolOperationId owner current.fence
        errorCode write) current next
  | finished {call : ToolCall} {outcome : ToolOutcome} {current next : ToolOperationRecord}
      (reports : call.Reports)
      (active : current.status = .claimed ∨ current.status = .effectUnknown)
      (fields : next.toToolOperationFields = finishedFields now current outcome) :
      Update now call current next
  | settled {expected : ToolOperationRecord} {resultPayload : Option StoredPayload}
      {errorCode : Option String} {errorPayload : Option StoredPayload}
      {current next : ToolOperationRecord} (pending : current.status = .pending)
      (released : current.owner = none)
      (fields : next.toToolOperationFields = { current.toToolOperationFields with
        status := settledStatus resultPayload
        resultPayload := resultPayload
        errorCode := errorCode
        errorPayload := errorPayload
        updatedAt := now }) :
      Update now (.settleDeferredResult expected resultPayload errorCode errorPayload) current next
  | retried {executionId : String} {producerGeneration : Nat} {producerClaimId : String}
      {current next : ToolOperationRecord} (held : current.status = .claimed)
      (safe : current.replaySafe = true)
      (fields : next.toToolOperationFields = { current.toToolOperationFields with
        status := .pending
        owner := none
        errorCode := none
        updatedAt := now }) :
      Update now (.reconcileTurnClaim current.toolOperationId executionId producerGeneration
        producerClaimId false) current next
  | abandoned (held : current.status = .claimed)
      (fields : next.toToolOperationFields = { current.toToolOperationFields with
        status := .effectUnknown
        errorCode := some ErrorCode.toolEffectUnknown.value
        updatedAt := now }) :
      Update now (.reconcileTurnClaim current.toolOperationId executionId producerGeneration
        producerClaimId turnStopping) current next
  | resolved {executionId : String} {targetStatus : ToolOperationStatus}
      {resultPayload : Option StoredPayload} {errorCode : Option String}
      {errorPayload : Option StoredPayload} {admitted : Except Raised Unit}
      {current next : ToolOperationRecord} (unknown : current.status = .effectUnknown)
      (fields : resolvedFields now current targetStatus resultPayload errorCode errorPayload =
        .ok next.toToolOperationFields) :
      Update now (.resolveEffect current.toolOperationId executionId current.fence targetStatus
        resultPayload errorCode errorPayload admitted) current next
  | annotated (reports : call.Reports)
      (fields : next.toToolOperationFields = { current.toToolOperationFields with
        effectStartedAt := startedAt
        effectIdempotencyKey := key
        effectSummary := summary
        updatedAt := now }) : Update now call current next

variable {now : Time} {record : ToolOperationRecord}

theorem finishedFields_toolOperationId (outcome : ToolOutcome) :
    (finishedFields now record outcome).toolOperationId = record.toolOperationId := by
  cases outcome <;> rfl

theorem resolvedFields_toolOperationId
    (done : resolvedFields now record targetStatus resultPayload errorCode errorPayload =
      .ok fields) : fields.toolOperationId = record.toolOperationId := by
  cases targetStatus <;> cases done <;> rfl

inductive RowChange (now : Time) (call : ToolCall) (toolOperationId : String) :
    Option (Observed ToolOperationRecord) → Option (Observed ToolOperationRecord) → Prop
  | same (row : Option (Observed ToolOperationRecord)) : RowChange now call toolOperationId row row
  | guarded (row : Observed ToolOperationRecord) (revision : Nat)
      (grows : row.storageRevision < revision) :
      RowChange now call toolOperationId (some row) (some ⟨row.value, revision⟩)
  | inserted (record : ToolOperationRecord) (named : record.toolOperationId = toolOperationId) :
      RowChange now call toolOperationId none (some ⟨record, 0⟩)
  | updated (row : Observed ToolOperationRecord) (next : ToolOperationRecord) (revision : Nat)
      (grows : row.storageRevision < revision) (update : Update now call row.value next) :
      RowChange now call toolOperationId (some row) (some ⟨next, revision⟩)

def Changes (now : Time) (call : ToolCall) (store after : ToolStore) : Prop :=
  ∀ toolOperationId, RowChange now call toolOperationId (store.operations toolOperationId)
      (after.operations toolOperationId)

def Keyed (store : ToolStore) : Prop :=
  ∀ toolOperationId row, store.operations toolOperationId = some row →
    row.value.toolOperationId = toolOperationId

/-- A receipt that has the storage revision of the stored row is that row. -/
def Faithful (store : ToolStore) (receipt : Observed ToolOperationRecord) : Prop :=
  ∀ row, store.operations receipt.value.toolOperationId = some row →
    row.storageRevision = receipt.storageRevision → row = receipt

section Writes

variable {call : ToolCall} {store middle : ToolStore} {row : Observed ToolOperationRecord}
  {value : ToolOperationRecord}

theorem Changes.refl : Changes now call store store :=
  fun toolOperationId => .same (store.operations toolOperationId)

theorem Changes.of_operations (same : after.operations = store.operations) :
    Changes now call store after := by
  intro toolOperationId
  rw [same]
  exact .same _

theorem Changes.of_put (change : RowChange now call row.value.toolOperationId
      (store.operations row.value.toolOperationId) (some row)) :
    Changes now call store (store.putOperation row) := by
  intro toolOperationId
  by_cases named : toolOperationId = row.value.toolOperationId
  case pos =>
    subst named
    rw [ToolStore.putOperation_self]
    exact change
  case neg =>
    rw [ToolStore.putOperation_of_ne named]
    exact .same _

theorem Changes.trans_guarded (guards : ∀ toolOperationId, store.operations toolOperationId =
        middle.operations toolOperationId ∨
      ∃ row revision, store.operations toolOperationId = some row ∧ row.storageRevision < revision ∧
        middle.operations toolOperationId = some ⟨row.value, revision⟩)
    (changes : Changes now call middle after) : Changes now call store after := by
  intro toolOperationId
  have change := changes toolOperationId
  cases guards toolOperationId with
  | inl same => exact same ▸ change
  | inr guarded =>
    obtain ⟨row, revision, found, grows, held⟩ := guarded
    rw [found]
    rw [held] at change
    generalize after.operations toolOperationId = next at change
    cases change with
    | same => exact .guarded row revision grows
    | guarded _ later further => exact .guarded row later (lt_trans grows further)
    | updated _ next later further update =>
      exact .updated row next later (lt_trans grows further) update

theorem insertRecord_ok (done : store.insertRecord record = .ok after) :
    store.operations record.toolOperationId = none ∧ after = store.putOperation ⟨record, 0⟩ := by
  simp only [ToolStore.insertRecord, bind_eq_ok, refuse_eq_ok, pure_eq_ok, Bool.not_eq_true,
    Option.isSome_eq_false_iff, Option.isNone_iff_eq_none] at done
  obtain ⟨_, absent, rfl⟩ := done
  exact ⟨absent, rfl⟩

theorem insertAlias_ok (done : store.insertAlias callAlias key = .ok after) :
    after.operations = store.operations := by
  simp only [ToolStore.insertAlias, bind_eq_ok, refuse_eq_ok, pure_eq_ok] at done
  obtain ⟨_, _, rfl⟩ := done
  rfl

theorem replaceTool_ok (done : store.replaceTool row value = .ok after) :
    ∃ current, store.operations value.toolOperationId = some current ∧
      current.storageRevision = row.storageRevision ∧
      after = store.putOperation ⟨value, row.storageRevision + 1⟩ := by
  simp only [ToolStore.replaceTool, bind_eq_ok, orRaise_eq_ok, refuse_eq_ok, pure_eq_ok,
    not_not] at done
  obtain ⟨current, stored, _, same, _, _, rfl⟩ := done
  exact ⟨current, stored, same, rfl⟩

variable {revision : Nat}

theorem guardRecord_ok (done : store.guardRecord row = .ok (revision, after)) :
    ∃ current, store.operations row.value.toolOperationId = some current ∧
      current.storageRevision = row.storageRevision ∧ revision = row.storageRevision + 1 ∧
      after = { store with
        operations := Function.update store.operations row.value.toolOperationId
          (some ⟨current.value, revision⟩) } := by
  simp only [ToolStore.guardRecord, bind_eq_ok, orRaise_eq_ok, refuse_eq_ok, pure_eq_ok,
    not_not, Prod.mk.injEq] at done
  obtain ⟨current, stored, _, same, rfl, rfl⟩ := done
  exact ⟨current, stored, same, rfl, rfl⟩

theorem Update.toolOperationId_eq (update : Update now call value record) :
    record.toolOperationId = value.toolOperationId := by
  cases update with
  | finished _ _ fields => rw [fields, finishedFields_toolOperationId]
  | resolved _ fields => exact resolvedFields_toolOperationId fields
  | claimed _ _ fields => rw [fields]
  | deferred _ _ fields => rw [fields]
  | marked _ fields => rw [fields]
  | settled _ _ fields => rw [fields]
  | retried _ _ fields => rw [fields]
  | abandoned _ fields => rw [fields]
  | annotated _ fields => rw [fields]

theorem replaceTool_changes (faithful : Faithful store row)
    (update : Update now call row.value value)
    (done : store.replaceTool row value = .ok after) : Changes now call store after := by
  have named := update.toolOperationId_eq
  obtain ⟨current, stored, same, rfl⟩ := replaceTool_ok done
  rw [named] at stored
  cases faithful current stored same
  apply Changes.of_put
  rw [named, stored]
  exact .updated row value _ (Nat.lt_succ_self _) update

theorem guardRecord_holds (faithful : Faithful store row)
    (done : store.guardRecord row = .ok (revision, after)) :
    after.operations row.value.toolOperationId = some ⟨row.value, revision⟩ ∧
    ∀ toolOperationId, store.operations toolOperationId = after.operations toolOperationId ∨
      ∃ row revision, store.operations toolOperationId = some row ∧ row.storageRevision < revision ∧
        after.operations toolOperationId = some ⟨row.value, revision⟩ := by
  obtain ⟨current, stored, same, rfl, rfl⟩ := guardRecord_ok done
  cases faithful current stored same
  refine ⟨Function.update_self .., fun toolOperationId => ?_⟩
  by_cases named : toolOperationId = row.value.toolOperationId
  case pos =>
    subst named
    exact .inr ⟨row, _, stored, Nat.lt_succ_self _, Function.update_self ..⟩
  case neg => exact .inl (Function.update_of_ne named ..).symm

theorem Keyed.faithful (keyed : Keyed store) (found : store.operations toolOperationId = some row) :
    Faithful store row := by
  intro current stored _
  rw [keyed _ _ found] at stored
  exact Option.some.inj (stored.symm.trans found)

end Writes

end Linktools.Tool
