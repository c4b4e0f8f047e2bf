import Linktools.Tool.Histories

namespace Linktools.Tool

open Linktools.Core Library ToolRepository

def Unheld (store : ToolStore) (toolOperationId owner : String) (fence : Nat) : Prop :=
  ∀ row, store.operations toolOperationId = some row →
    row.value.owner ≠ some owner ∨ row.value.fence ≠ fence

def Unfenced (store : ToolStore) (toolOperationId : String) (fence : Nat) : Prop :=
  ∀ row, store.operations toolOperationId = some row → row.value.fence ≠ fence

/-- The operation that a call acts on, with the owner and the fence that the call carries. -/
def ToolCall.carried : ToolCall → Option (String × Option String × Option Nat)
  | .admitTool request => some (request.toolOperationId, some request.owner, none)
  | .admitInTransaction request _ _ => some (request.toolOperationId, some request.owner, none)
  | .reserve record => some (record.toolOperationId, record.owner, some record.fence)
  | .defer _ toolOperationId owner fence => some (toolOperationId, some owner, some fence)
  | .markEffectUnknown _ toolOperationId owner fence _ _ =>
    some (toolOperationId, some owner, some fence)
  | .complete _ toolOperationId owner fence _ _ => some (toolOperationId, some owner, some fence)
  | .fail _ toolOperationId owner fence _ _ _ => some (toolOperationId, some owner, some fence)
  | .settleDeferredResult expected _ _ _ =>
    some (expected.toolOperationId, expected.owner, some expected.fence)
  | .reconcileTurnClaim toolOperationId _ _ producerClaimId _ =>
    some (toolOperationId, some producerClaimId, none)
  | .resolveEffect toolOperationId _ expectedFence _ _ _ _ _ =>
    some (toolOperationId, none, some expectedFence)
  | .recordToolEffect .. => none

/-- A carried owner or fence that is not the stored one. -/
def Stale (row : ToolOperationRecord) (owner : Option String) (fence : Option Nat) : Prop :=
  (owner ≠ none ∧ row.owner ≠ owner) ∨ ∃ carried, fence = some carried ∧ row.fence ≠ carried

/-- An admission answers the record it acts on, its receipt or else the stored one, unless
another owner has claimed that record. -/
def Admits (row acted : Observed ToolOperationRecord) (owner : String) : Prop :=
  match acted.value.status with
  | .completed | .failed | .effectUnknown => True
  | .claimed => acted.value.owner = some owner
  | .pending => acted = row
  | .cancelled => False

/-- The calls that are answered by their design whatever owner they carry. -/
def Answers (row : Observed ToolOperationRecord) : ToolCall → Prop
  | .admitTool request => Admits row row request.owner
  | .admitInTransaction request observed _ => Admits row (observed.getD row) request.owner
  | .reserve _ => True
  | .defer _ _ _ fence =>
    row.value.status = .pending ∧ row.value.owner = none ∧ row.value.fence = fence
  | .settleDeferredResult expected _ _ _ => row.value.fence = expected.fence
  | .reconcileTurnClaim _ _ producerGeneration _ _ => row.value.status ≠ .claimed ∨
      ∃ generation, row.value.producerGeneration = some generation ∧ generation < producerGeneration
  | _ => False

/-- The answers that move the record on: the claim of a pending operation, the settlement of
a deferred one, and the takeover of a turn's claim. -/
def Advances (row : ToolOperationRecord) : ToolCall → Prop
  | .admitTool _ | .admitInTransaction .. | .settleDeferredResult .. => row.status = .pending
  | .reconcileTurnClaim .. => row.status = .claimed
  | _ => False

section Refusals

variable {repo : ToolRepository} {store after : ToolStore} {now : Time}
  {row result : Observed ToolOperationRecord} {value : ToolOperationRecord}
  {tenantId toolOperationId owner executionId : String} {fence : Nat}
  {request : ToolOperationAdmission} {knownNew : Bool}

variable {resolved : Option String}

section

variable (faithful : Faithful store row)
include faithful

section

variable (stale : store.operations row.value.toolOperationId ≠ some row)
include stale

end

end

variable {errorCode : Option String}

variable {outcome : ToolOutcome}

variable {observed : Option (Observed ToolOperationRecord)}

variable {resultPayload errorPayload : Option StoredPayload}

section

variable (found : store.operations toolOperationId = some row)
include found

theorem Stale.unheld (stale : Stale row.value (some owner) (some fence)) :
    Unheld store toolOperationId owner fence := by
  intro _ stored
  cases found.symm.trans stored
  simpa [Stale] using stale

theorem Stale.unfenced
    (stale : Stale row.value none (some fence)) : Unfenced store toolOperationId fence := by
  intro _ stored
  cases found.symm.trans stored
  simpa [Stale] using stale

end

end Refusals

section Fences

variable {now : Time} {call : ToolCall} {current next : ToolOperationRecord}

/-- The fence rises by one with a claim out of `PENDING`, and with nothing else. -/
def FenceMoves (current next : ToolOperationRecord) : Prop :=
  (current.status = .pending ∧ next.status = .claimed ∧ next.fence = current.fence + 1) ∨
    (¬(current.status = .pending ∧ next.status = .claimed) ∧ next.fence = current.fence)

theorem FenceMoves.of_open (held : current.status = .claimed ∨ current.status = .effectUnknown)
    (same : next.toToolOperationFields = fields) (fence : fields.fence = current.fence) :
    FenceMoves current next := by
  refine .inr ⟨fun moves => ?_, same ▸ fence⟩
  cases held with
  | inl claimed => cases claimed.symm.trans moves.1
  | inr unknown => cases unknown.symm.trans moves.1

theorem FenceMoves.refl : FenceMoves current current := by
  refine .inr ⟨fun moves => ?_, rfl⟩
  cases moves.1.symm.trans moves.2

theorem Update.advances (update : Update now call current next)
    (answers : Answers ⟨current, revision⟩ call) : Advances current call := by
  cases update with
  | claimed admits pending => cases call <;> first | exact pending | cases admits
  | deferred held => cases held.symm.trans answers.1
  | settled pending => exact pending
  | retried held => exact held
  | abandoned held => exact held
  | marked => exact answers.elim
  | resolved => exact answers.elim
  | finished reports => cases call <;> first | exact reports.elim | exact answers.elim
  | annotated reports => cases call <;> first | exact reports.elim | exact answers.elim

end Fences

def sampleRepository : ToolRepository := ⟨"t"⟩

def sampleRequest : ToolOperationAdmission where
  executionId := "e"
  toolOperationId := "o"
  agentRunId := "r"
  recoveryAgentRunId := none
  toolCallId := "c"
  idempotencyKeyDigest := "k"
  toolName := "tool"
  argumentsDigest := "d"
  bindingDigest := "b"
  replaySafe := false
  owner := "a"

def sampleAdmitted : ToolSystem :=
  ToolSystem.respond sampleRepository ⟨{}, []⟩ (.admitTool sampleRequest) 0

def sampleDeferred : ToolSystem :=
  sampleAdmitted.respond sampleRepository (.defer "t" "o" "a" 1) 1

theorem sampleAdmitted_reachable : (toolMachine sampleRepository).Reachable sampleAdmitted :=
  ToolSystem.reachable_respond (.of_initial rfl) (ToolSystem.genuine_of_silent rfl)

section Runs

variable {repo : ToolRepository} {system : ToolSystem}

def sampleRow (system : ToolSystem) (present : (system.store.operations "o").isSome = true) :
    Observed ToolOperationRecord :=
  (system.store.operations "o").get present

end Runs

/-- The operation has left `PENDING` at a fence, under an owner who may still hold it. -/
def Dispatched (toolOperationId : String) (fence : Nat) (owner : Option String)
    (system : ToolSystem) : Prop :=
  ∃ row, system.store.operations toolOperationId = some row ∧ row.value.replaySafe = false ∧
    row.value.status ≠ .pending ∧ row.value.fence = fence ∧ row.value.owner = owner

/-- A step that makes an operation claimable again: the deferral of the owner that holds its
claim, or the resolution of an operator that its unknown effect was not applied. -/
inductive Released (toolOperationId : String) (fence : Nat) (owner : Option String)
    (row : ToolOperationRecord) : ToolCall → Prop
  | deferred {tenantId holder : String} (held : row.status = .claimed)
      (owned : owner = some holder) :
      Released toolOperationId fence owner row (.defer tenantId toolOperationId holder fence)
  | notApplied (unknown : row.status = .effectUnknown) :
      Released toolOperationId fence owner row (.resolveEffect toolOperationId executionId fence
        .pending resultPayload errorCode errorPayload admitted)

section Steps

variable {now : Time} {call : ToolCall} {current next : ToolOperationRecord}

theorem Update.dispatched (update : Update now call current next)
    (safety : current.replaySafe = false) (dispatched : current.status ≠ .pending) :
    (next.status ≠ .pending ∧ next.fence = current.fence ∧ next.owner = current.owner) ∨
      Released current.toolOperationId current.fence current.owner current call := by
  have kept : ∀ {fields : ToolOperationFields}, next.toToolOperationFields = fields →
      fields.status ≠ .pending → fields.fence = current.fence → fields.owner = current.owner →
      next.status ≠ .pending ∧ next.fence = current.fence ∧ next.owner = current.owner := by
    intro fields same status fence owner
    exact ⟨same ▸ status, same ▸ fence, same ▸ owner⟩
  cases update with
  | claimed _ pending _ => exact absurd pending dispatched
  | deferred held owned _ => exact .inr (.deferred held owned)
  | marked _ fields => exact .inl (kept fields nofun rfl rfl)
  | @finished _ outcome _ _ _ _ fields =>
    cases outcome with
    | completed => exact .inl (kept fields nofun rfl rfl)
    | failed => exact .inl (kept fields nofun rfl rfl)
  | settled pending => exact absurd pending dispatched
  | retried _ safe _ => cases safe.symm.trans safety
  | abandoned _ fields => exact .inl (kept fields nofun rfl rfl)
  | @resolved _ targetStatus _ _ _ _ _ _ unknown fields =>
    cases targetStatus with
    | completed => exact .inl (kept (Except.ok.inj fields).symm nofun rfl rfl)
    | pending => exact .inr (.notApplied unknown)
    | failed => exact .inl (kept (Except.ok.inj fields).symm nofun rfl rfl)
    | claimed => cases fields
    | cancelled => cases fields
    | effectUnknown => cases fields
  | annotated _ fields => exact .inl (kept fields dispatched rfl rfl)

end Steps

variable {repo : ToolRepository} {first last : ToolSystem} {label : ToolCall × Time}
  {toolOperationId : String} {fence : Nat} {owner : Option String}

theorem Dispatched.step (reachable : (toolMachine repo).Reachable first)
    (dispatched : Dispatched toolOperationId fence owner first)
    (step : (toolMachine repo).step first label last) :
    Dispatched toolOperationId fence owner last ∨
      ∃ row, first.store.operations toolOperationId = some row ∧ row.value.fence = fence ∧
        Released toolOperationId fence owner row.value label.1 := by
  obtain ⟨row, found, safety, active, rfl, rfl⟩ := dispatched
  have named := (ToolSystem.recorded_of_reachable reachable).2 _ _ found
  have change := ToolSystem.step_changes reachable step toolOperationId
  rw [found] at change
  unfold Dispatched
  generalize last.store.operations toolOperationId = next at change
  cases change with
  | same => exact .inl ⟨row, rfl, safety, active, rfl, rfl⟩
  | guarded => exact .inl ⟨_, rfl, safety, active, rfl, rfl⟩
  | updated _ next revision _ update =>
    cases update.dispatched safety active with
    | inl kept =>
      exact .inl ⟨_, rfl, update.succeeds.replaySafe.trans safety, kept.1, kept.2.1, kept.2.2⟩
    | inr released => exact .inr ⟨row, found, rfl, named ▸ released⟩

/-- In every run from a state in which an operation that is not replay safe is claimed, it
stays out of `PENDING` at its fence, unless some step in between is the deferral of the owner
that claimed it, or the resolution of an operator that its unknown effect was not applied. -/
theorem operations_are_claimed_once_per_decision
    (reachable : (toolMachine repo).Reachable first) (row : Observed ToolOperationRecord)
    (found : first.store.operations toolOperationId = some row)
    (claimed : row.value.status = .claimed) (safety : row.value.replaySafe = false)
    {labels : List (ToolCall × Time)}
    (run : Machine.Run (toolMachine repo) first labels last) :
    (∃ later, last.store.operations toolOperationId = some later ∧
      later.value.status ≠ .pending ∧ later.value.fence = row.value.fence) ∨
    ∃ earlier label later before after, labels = earlier ++ label :: later ∧
      Machine.Run (toolMachine repo) first earlier before ∧
      (toolMachine repo).step before label after ∧
      Machine.Run (toolMachine repo) after later last ∧
      ∃ current, before.store.operations toolOperationId = some current ∧
        current.value.fence = row.value.fence ∧
        Released toolOperationId row.value.fence row.value.owner current.value label.1 := by
  have start : Dispatched toolOperationId row.value.fence row.value.owner first := by
    refine ⟨row, found, safety, ?_, rfl, rfl⟩
    rw [claimed]
    exact nofun
  by_cases still : Dispatched toolOperationId row.value.fence row.value.owner last
  case pos =>
    obtain ⟨later, stored, _, active, fence, _⟩ := still
    exact .inl ⟨later, stored, active, fence⟩
  case neg =>
    obtain ⟨earlier, label, later, before, after, split, toState, step, fromState, held, lost⟩ :=
      run.exists_loss start still
    have released := (held.step (reachable.run toState) step).resolve_left lost
    exact .inr ⟨earlier, label, later, before, after, split, toState, step, fromState, released⟩

/-- An operation that its owner defers before another owner claims it. -/
theorem sample_operation_claimed_once : (∃ later, sampleDeferred.store.operations "o" = some later ∧
      later.value.status ≠ .pending ∧ later.value.fence = 1) ∨ ∃ earlier label later before after,
      [((ToolCall.defer "t" "o" "a" 1), (1 : Time))] = earlier ++ label :: later ∧
      Machine.Run (toolMachine sampleRepository) sampleAdmitted earlier before ∧
      (toolMachine sampleRepository).step before label after ∧
      Machine.Run (toolMachine sampleRepository) after later sampleDeferred ∧
      ∃ current, before.store.operations "o" = some current ∧ current.value.fence = 1 ∧
        Released "o" 1 (some "a") current.value label.1 :=
  operations_are_claimed_once_per_decision sampleAdmitted_reachable
    ((sampleAdmitted.store.operations "o").get (by decide +kernel))
    (Option.some_get _).symm (by decide +kernel) (by decide +kernel)
    (.single ⟨ToolSystem.genuine_of_silent rfl, rfl⟩)

end Linktools.Tool
