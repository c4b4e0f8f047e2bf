import Linktools.Core.Value
import Linktools.Library.Checked
import Linktools.Library.Keyed

namespace Linktools.Budget

open Linktools.Core Library

/-! Shared budgets: their limits, the usage that is stored for a scope, and the reservations
that the usage sums up. -/

structure RunBudget where
  modelRequests : Option Nat := none
  toolCalls : Option Nat := none
  totalTokens : Option Nat := none
  deadlineAt : Option Time := none
deriving DecidableEq

structure BudgetUsageFields where
  scopeId : String
  limits : RunBudget
  modelRequests : Int := 0
  toolCalls : Int := 0
  totalTokens : Int := 0
  inFlightModelRequests : Int := 0
  unknownModelRequests : Int := 0

def requireNonnegative (value : Int) (name : String) : Except Raised Unit :=
  refuse (value < 0) (.valueError (name ++ " must be a non-negative integer"))

namespace BudgetUsageFields

def check (fields : BudgetUsageFields) : Except Raised Unit := do
  refuse (fields.scopeId = "") (.valueError "scope_id is required")
  requireNonnegative fields.modelRequests "model_requests"
  requireNonnegative fields.toolCalls "tool_calls"
  requireNonnegative fields.totalTokens "total_tokens"
  requireNonnegative fields.inFlightModelRequests "in_flight_model_requests"
  requireNonnegative fields.unknownModelRequests "unknown_model_requests"
  refuse (fields.modelRequests < fields.inFlightModelRequests + fields.unknownModelRequests)
    (.valueError "unresolved model usage exceeds admitted requests")

end BudgetUsageFields

structure BudgetUsage extends BudgetUsageFields where
  checked : toBudgetUsageFields.check = .ok ()

def BudgetUsage.build (fields : BudgetUsageFields) : Except Raised BudgetUsage :=
  match checked : fields.check with
  | .ok () => .ok { toBudgetUsageFields := fields, checked := checked }
  | .error error => .error error

variable {fields : BudgetUsageFields}

theorem BudgetUsage.build_eq_ok (built : BudgetUsage.build fields = .ok usage) :
    usage.toBudgetUsageFields = fields := by
  unfold build at built
  split at built
  case h_1 =>
    cases built
    rfl
  case h_2 => cases built

inductive ReservationStatus
  | inFlight
  | settled
  | unknown
deriving DecidableEq

def ReservationStatus.settling (totalTokens : Option Nat) : ReservationStatus :=
  if totalTokens = none then .unknown else .settled

variable {totalTokens : Option Nat}

theorem ReservationStatus.settling_ne_inFlight : settling totalTokens ≠ .inFlight := by
  unfold settling
  split <;> decide

theorem ReservationStatus.settling_eq_unknown :
    settling totalTokens = .unknown ↔ totalTokens = none := by
  unfold settling
  split <;> simp_all

structure BudgetModelReservation where
  scopeId : String
  requestId : String
  ownerId : String
  admissionId : String
  status : ReservationStatus := .inFlight
  totalTokens : Option Nat := none
  identified : scopeId ≠ "" ∧ requestId ≠ "" ∧ ownerId ≠ "" ∧ admissionId ≠ ""
  consistent : status = .settled ↔ totalTokens ≠ none := by decide

structure BudgetToolReservation where
  scopeId : String
  callId : String
  admissionId : String
  identified : scopeId ≠ "" ∧ callId ≠ "" ∧ admissionId ≠ ""

namespace BudgetModelReservation

def key (reservation : BudgetModelReservation) : String × String :=
  (reservation.scopeId, reservation.requestId)

def reserve (scopeId requestId ownerId admissionId : String) :
    Except Raised BudgetModelReservation :=
  if identified : scopeId ≠ "" ∧ requestId ≠ "" ∧ ownerId ≠ "" ∧ admissionId ≠ "" then
    .ok { scopeId := scopeId, requestId := requestId, ownerId := ownerId,
          admissionId := admissionId, identified := identified }
  else .error (.valueError "model budget reservation identities are required")

def settle (reservation : BudgetModelReservation) (totalTokens : Option Nat) :
    BudgetModelReservation :=
  { reservation with
    status := .settling totalTokens
    totalTokens := totalTokens
    consistent := by
      unfold ReservationStatus.settling
      split <;> simp_all }

variable {reservation : BudgetModelReservation}

theorem totalTokens_of_inFlight
    (inFlight : reservation.status = .inFlight) : reservation.totalTokens = none := by
  by_contra tokens
  rw [reservation.consistent.mpr tokens] at inFlight
  cases inFlight

@[simp] theorem key_settle : (reservation.settle totalTokens).key = reservation.key := rfl

@[simp] theorem status_settle :
    (reservation.settle totalTokens).status = .settling totalTokens := rfl

theorem reserve_eq_ok {scopeId requestId ownerId admissionId : String}
    (admitted : reserve scopeId requestId ownerId admissionId = .ok reservation) :
    reservation.key = (scopeId, requestId) ∧ reservation.status = .inFlight ∧
      reservation.totalTokens = none := by
  unfold reserve at admitted
  split at admitted
  case isTrue =>
    cases admitted
    exact ⟨rfl, rfl, rfl⟩
  case isFalse => cases admitted

end BudgetModelReservation

namespace BudgetToolReservation

def key (reservation : BudgetToolReservation) : String × String :=
  (reservation.scopeId, reservation.callId)

def reserve (scopeId callId admissionId : String) : Except Raised BudgetToolReservation :=
  if identified : scopeId ≠ "" ∧ callId ≠ "" ∧ admissionId ≠ "" then
    .ok { scopeId := scopeId, callId := callId, admissionId := admissionId,
          identified := identified }
  else .error (.valueError "tool budget reservation identities are required")

theorem reserve_eq_ok {scopeId callId admissionId : String}
    (admitted : reserve scopeId callId admissionId = .ok reservation) :
    reservation.key = (scopeId, callId) := by
  unfold reserve at admitted
  split at admitted
  case isTrue =>
    cases admitted
    rfl
  case isFalse => cases admitted

end BudgetToolReservation

structure BudgetStore where
  scopes : List BudgetUsage := []
  models : List BudgetModelReservation := []
  tools : List BudgetToolReservation := []

/-- What a transaction raises: an error of its own, or that it met a reservation of this
owner that has not been settled yet, which makes the caller look again. -/
inductive Refusal
  | raised (error : Raised)
  | unresolvedLocalReservation (scopeId : String) (inconsistent : Bool)

structure BudgetOwner where
  ownerId : String
  activeRequests : List (String × String × String) := []

inductive Dimension
  | modelRequests
  | toolCalls

def Dimension.value : Dimension → String
  | .modelRequests => "model_requests"
  | .toolCalls => "tool_calls"

def Dimension.limit (limits : RunBudget) : Dimension → Option Nat
  | .modelRequests => limits.modelRequests
  | .toolCalls => limits.toolCalls

def Dimension.count (usage : BudgetUsage) : Dimension → Int
  | .modelRequests => usage.modelRequests
  | .toolCalls => usage.toolCalls

/-- `_reject`. -/
def rejection (scopeId dimension reason : String) : Refusal :=
  .raised (.ai .executionUsageLimitExceeded
    [("scope_id", .str scopeId), ("dimension", .str dimension), ("reason", .str reason)])

def settlementChanged : Refusal :=
  .raised (.ai .storageConflict [("reason", .str "budget_settlement_changed")])

namespace BudgetStore

variable (store : BudgetStore)

def scopeAt (scopeId : String) : Option BudgetUsage :=
  rowAt (fun usage : BudgetUsage => usage.scopeId) store.scopes scopeId

def modelAt (key : String × String) : Option BudgetModelReservation :=
  rowAt BudgetModelReservation.key store.models key

def toolAt (key : String × String) : Option BudgetToolReservation :=
  rowAt BudgetToolReservation.key store.tools key

/-- `_decode_scope_record`. -/
def scopeRecord (scopeId : String) : Except Refusal BudgetUsage :=
  orRaise (store.scopeAt scopeId) (.raised (.ai .storageIntegrityError
    [("reason", .str "missing_budget_scope"), ("scope_id", .str scopeId)]))

def replaceUsage (usage : BudgetUsage) : BudgetStore :=
  { store with scopes := rewriteAt (·.scopeId) store.scopes usage.scopeId usage }

def insertModel (reservation : BudgetModelReservation) : BudgetStore :=
  { store with models := store.models ++ [reservation] }

def replaceModel (reservation : BudgetModelReservation) : BudgetStore :=
  { store with models := rewriteAt (·.key) store.models reservation.key reservation }

def insertTool (reservation : BudgetToolReservation) : BudgetStore :=
  { store with tools := store.tools ++ [reservation] }

/-- The in-flight reservations of a scope, as the listing behind the token limit reads them. -/
def inFlightRows (scopeId : String) : List BudgetModelReservation :=
  store.models.filter fun reservation =>
    reservation.scopeId = scopeId ∧ reservation.status = .inFlight

end BudgetStore

namespace BudgetOwner

variable (owner : BudgetOwner) (now : Time) (store : BudgetStore)

def checkReservation (scopeId : String) (reservation : BudgetModelReservation) :
    Except Refusal Unit := do
  refuse (reservation.ownerId ≠ owner.ownerId)
    (rejection scopeId "total_tokens" "unresolved_in_flight")
  refuse ((reservation.scopeId, reservation.requestId, reservation.admissionId) ∉
    owner.activeRequests) (.unresolvedLocalReservation scopeId false)

def checkTokens (usage : BudgetUsage) (totalTokens : Nat) : Except Refusal Unit := do
  refuse (usage.unknownModelRequests ≠ 0) (rejection usage.scopeId "total_tokens" "unknown_usage")
  let rows := if usage.inFlightModelRequests ≠ 0 then store.inFlightRows usage.scopeId else []
  refuse (usage.inFlightModelRequests ≠ 0 ∧ (rows.length : Int) ≠ usage.inFlightModelRequests)
    (.unresolvedLocalReservation usage.scopeId true)
  rows.forM (owner.checkReservation usage.scopeId)
  refuse ((totalTokens : Int) ≤ usage.totalTokens)
    (rejection usage.scopeId "total_tokens" "limit_exceeded")

def checkDimension (usage : BudgetUsage) (dimension : Dimension) : Except Refusal Unit :=
  refuse ((dimension.limit usage.limits).any fun limit : Nat =>
      (limit : Int) ≤ dimension.count usage)
    (rejection usage.scopeId dimension.value "limit_exceeded")

/-- `_check_admission`. -/
def checkAdmission (usage : BudgetUsage) (dimension : Option Dimension) : Except Refusal Unit := do
  refuse (usage.limits.deadlineAt.any fun deadline => deadline ≤ now)
    (rejection usage.scopeId "deadline_at" "deadline_exceeded")
  dimension.toList.forM (checkDimension usage)
  usage.limits.totalTokens.toList.forM (owner.checkTokens store usage)

def ensure (scopeId : String) (limits : RunBudget) : Except Refusal (BudgetUsage × BudgetStore) :=
  match store.scopeAt scopeId with
  | some value => do
    refuse (value.limits ≠ limits)
      (.raised (.ai .storageConflict [("reason", .str "budget_limits_changed")]))
    return (value, store)
  | none => do
    let initial ← (BudgetUsage.build { scopeId := scopeId, limits := limits }).mapError .raised
    return (initial, { store with scopes := store.scopes ++ [initial] })

def admitModel (scopeId requestId admissionId : String) :
    Except Refusal (BudgetUsage × BudgetStore) := do
  let reservation ← (BudgetModelReservation.reserve scopeId requestId owner.ownerId
    admissionId).mapError .raised
  let usage ← store.scopeRecord scopeId
  refuse (store.modelAt (scopeId, requestId)).isSome
    (rejection scopeId "model_requests" "duplicate_dispatch")
  owner.checkAdmission now store usage (some .modelRequests)
  let updated ← (BudgetUsage.build { usage.toBudgetUsageFields with
    modelRequests := usage.modelRequests + 1
    inFlightModelRequests := usage.inFlightModelRequests + 1 }).mapError .raised
  return (updated, (store.insertModel reservation).replaceUsage updated)

def settledUsage (usage : BudgetUsage) (totalTokens : Option Nat) : BudgetUsageFields :=
  { usage.toBudgetUsageFields with
    totalTokens := usage.totalTokens + (totalTokens.getD 0 : Nat)
    inFlightModelRequests := usage.inFlightModelRequests - 1
    unknownModelRequests :=
      usage.unknownModelRequests + if totalTokens = none then 1 else 0 }

def writeSettlement (usage : BudgetUsage) (reservation : BudgetModelReservation)
    (totalTokens : Option Nat) : Except Refusal (BudgetUsage × BudgetStore) := do
  let updated ← (BudgetUsage.build (settledUsage usage totalTokens)).mapError .raised
  return (updated, (store.replaceModel (reservation.settle totalTokens)).replaceUsage updated)

def settleModel (scopeId requestId : String) (totalTokens : Option Int) :
    Except Refusal (BudgetUsage × BudgetStore) := do
  refuse (totalTokens.any fun tokens => tokens < 0)
    (.raised (.valueError "total_tokens must be a non-negative integer or None"))
  let tokens := totalTokens.map Int.toNat
  let usage ← store.scopeRecord scopeId
  let reservation ← orRaise (store.modelAt (scopeId, requestId)) (.raised .integrity)
  if reservation.status ≠ .inFlight then do
    refuse (reservation.status ≠ .settling tokens ∨ reservation.totalTokens ≠ tokens)
      settlementChanged
    return (usage, store)
  else writeSettlement store usage reservation tokens

/-- `admit_tool_in_transaction`. -/
def admitTool (scopeId callId admissionId : String) :
    Except Refusal (BudgetUsage × BudgetStore) := do
  let reservation ← (BudgetToolReservation.reserve scopeId callId admissionId).mapError .raised
  let usage ← store.scopeRecord scopeId
  match store.toolAt (scopeId, callId) with
  | some value => do
    refuse (value.admissionId ≠ admissionId) (rejection scopeId "tool_calls" "duplicate_dispatch")
    return (usage, store)
  | none => do
    owner.checkAdmission now store usage (some .toolCalls)
    let updated ← (BudgetUsage.build { usage.toBudgetUsageFields with
      toolCalls := usage.toolCalls + 1 }).mapError .raised
    return (updated, (store.insertTool reservation).replaceUsage updated)

end BudgetOwner

end Linktools.Budget
