import Linktools.Budget.Repository
import Linktools.Library.Machine

namespace Linktools.Budget

open Linktools.Core Library BudgetOwner List

inductive BudgetCall
  | ensure (scopeId : String) (limits : RunBudget)
  | admitModel (owner : BudgetOwner) (now : Time) (scopeId requestId admissionId : String)
  | settleModel (scopeId requestId : String) (totalTokens : Option Int)
  | admitTool (owner : BudgetOwner) (now : Time) (scopeId callId admissionId : String)

def BudgetCall.perform (store : BudgetStore) :
    BudgetCall → Except Refusal (BudgetUsage × BudgetStore)
  | .ensure scopeId limits => BudgetOwner.ensure store scopeId limits
  | .admitModel owner now scopeId requestId admissionId =>
    owner.admitModel now store scopeId requestId admissionId
  | .settleModel scopeId requestId totalTokens =>
    BudgetOwner.settleModel store scopeId requestId totalTokens
  | .admitTool owner now scopeId callId admissionId =>
    owner.admitTool now store scopeId callId admissionId

def BudgetCall.respond (call : BudgetCall) (store : BudgetStore) :
    Except Refusal BudgetUsage × BudgetStore :=
  match call.perform store with
  | .ok (usage, next) => (.ok usage, next)
  | .error refusal => (.error refusal, store)

def budgetMachine : Machine BudgetStore (BudgetCall × Except Refusal BudgetUsage) where
  initial store := store = {}
  step before label after := (label.2, after) = label.1.respond before

namespace BudgetStore

variable (store : BudgetStore) (scopeId : String)

def modelsOf : List BudgetModelReservation :=
  store.models.filter fun reservation => reservation.scopeId = scopeId

def toolsOf : List BudgetToolReservation :=
  store.tools.filter fun reservation => reservation.scopeId = scopeId

def statusCount (status : ReservationStatus) : Nat :=
  (store.modelsOf scopeId).countP fun reservation => reservation.status = status

def settledTokens : Nat := ((store.modelsOf scopeId).filterMap (·.totalTokens)).sum

structure Balanced (usage : BudgetUsage) : Prop where
  modelRequests : usage.modelRequests = (store.modelsOf usage.scopeId).length
  inFlight : usage.inFlightModelRequests = store.statusCount usage.scopeId .inFlight
  unknown : usage.unknownModelRequests = store.statusCount usage.scopeId .unknown
  totalTokens : usage.totalTokens = store.settledTokens usage.scopeId
  toolCalls : usage.toolCalls = (store.toolsOf usage.scopeId).length

end BudgetStore

structure BudgetUsage.WithinLimits (usage : BudgetUsage) : Prop where
  modelRequests : ∀ limit ∈ usage.limits.modelRequests, usage.modelRequests ≤ limit
  toolCalls : ∀ limit ∈ usage.limits.toolCalls, usage.toolCalls ≤ limit

inductive Change (store : BudgetStore) : BudgetStore → Prop
  | unchanged : Change store store
  | opened (absent : store.scopeAt usage.scopeId = none)
      (fields : usage.toBudgetUsageFields = { scopeId := usage.scopeId, limits := limits }) :
      Change store { store with scopes := store.scopes ++ [usage] }
  | modelAdmitted (found : store.scopeAt reservation.scopeId = some usage)
      (absent : store.modelAt reservation.key = none)
      (begins : reservation.status = .inFlight ∧ reservation.totalTokens = none)
      (below : ∀ limit ∈ usage.limits.modelRequests, usage.modelRequests < limit)
      (fields : updated.toBudgetUsageFields = { usage.toBudgetUsageFields with
        modelRequests := usage.modelRequests + 1
        inFlightModelRequests := usage.inFlightModelRequests + 1 }) :
      Change store ((store.insertModel reservation).replaceUsage updated)
  | modelSettled (found : store.scopeAt reservation.scopeId = some usage)
      (reserved : store.modelAt reservation.key = some reservation)
      (inFlight : reservation.status = .inFlight)
      (fields : updated.toBudgetUsageFields = BudgetOwner.settledUsage usage totalTokens) :
      Change store ((store.replaceModel (reservation.settle totalTokens)).replaceUsage updated)
  | toolAdmitted (found : store.scopeAt reservation.scopeId = some usage)
      (absent : store.toolAt reservation.key = none)
      (below : ∀ limit ∈ usage.limits.toolCalls, usage.toolCalls < limit)
      (fields : updated.toBudgetUsageFields = { usage.toBudgetUsageFields with
        toolCalls := usage.toolCalls + 1 }) :
      Change store ((store.insertTool reservation).replaceUsage updated)

variable {store next : BudgetStore} {owner : BudgetOwner} {now : Time} {usage : BudgetUsage}

theorem mapError_eq_ok {α : Type} {attempt : Except Raised α} {value : α} :
    attempt.mapError Refusal.raised = .ok value ↔ attempt = .ok value := by
  cases attempt <;> simp [Except.mapError]

theorem below_of_checkAdmission
    (passed : owner.checkAdmission now store usage (some dimension) = .ok ()) :
    ∀ limit ∈ dimension.limit usage.limits, dimension.count usage < limit := by
  rw [checkAdmission, bind_eq_ok] at passed
  obtain ⟨_, _, passed⟩ := passed
  rw [bind_eq_ok] at passed
  obtain ⟨_, dimensionPassed, _⟩ := passed
  have checked := forM_eq_ok.mp dimensionPassed dimension (by simp)
  rw [checkDimension, refuse_eq_ok] at checked
  intro limit limited
  rw [Option.mem_def.mp limited, Option.any_some, decide_eq_true_eq] at checked
  omega

variable {admissionId requestId scopeId : String} {limits : RunBudget}

theorem change_of_ensure (done : BudgetOwner.ensure store scopeId limits = .ok (usage, next)) :
    Change store next := by
  unfold ensure at done
  cases found : store.scopeAt scopeId with
  | some value =>
    rw [found] at done
    simp only [bind_eq_ok, pair_eq_ok] at done
    obtain ⟨_, _, _, same⟩ := done
    subst same
    exact .unchanged
  | none =>
    rw [found] at done
    simp only [bind_eq_ok, mapError_eq_ok, pair_eq_ok] at done
    obtain ⟨initial, built, _, same⟩ := done
    subst same
    have fields := BudgetUsage.build_eq_ok built
    have own : initial.scopeId = scopeId := by rw [fields]
    exact .opened (by rw [own]; exact found) (by rw [own]; exact fields)

theorem change_of_admitModel
    (done : owner.admitModel now store scopeId requestId admissionId = .ok (usage, next)) :
    Change store next := by
  simp only [admitModel, bind_eq_ok, mapError_eq_ok, pure_eq_ok, refuse_eq_ok,
    Prod.mk.injEq] at done
  obtain ⟨reservation, admitted, current, found, _, absent, _, passed, updated, built, _, same⟩ :=
    done
  subst same
  obtain ⟨key, begins⟩ := BudgetModelReservation.reserve_eq_ok admitted
  have own : reservation.scopeId = scopeId := (Prod.mk.inj key).1
  refine .modelAdmitted ?_ ?_ begins (below_of_checkAdmission passed)
    (BudgetUsage.build_eq_ok built)
  · rw [own]
    exact orRaise_eq_ok.mp found
  · rw [key]
    exact Option.not_isSome_iff_eq_none.mp absent

variable {totalTokens : Option Int}

theorem change_of_settleModel
    (done : BudgetOwner.settleModel store scopeId requestId totalTokens = .ok (usage, next)) :
    Change store next := by
  simp only [settleModel, bind_eq_ok] at done
  obtain ⟨_, _, current, found, reservation, reserved, done⟩ := done
  have reserved := orRaise_eq_ok.mp reserved
  have key := rowAt_key reserved
  have own : reservation.scopeId = scopeId := (Prod.mk.inj key).1
  split at done
  case isTrue =>
    rw [bind_eq_ok] at done
    obtain ⟨_, _, done⟩ := done
    cases done
    exact .unchanged
  case isFalse inFlight =>
    simp only [writeSettlement, bind_eq_ok, mapError_eq_ok, pair_eq_ok] at done
    obtain ⟨updated, built, _, same⟩ := done
    subst same
    refine .modelSettled ?_ ?_ (not_not.mp inFlight) (BudgetUsage.build_eq_ok built)
    · rw [own]
      exact orRaise_eq_ok.mp found
    · rw [key]
      exact reserved

theorem change_of_admitTool {scopeId callId admissionId : String}
    (done : owner.admitTool now store scopeId callId admissionId = .ok (usage, next)) :
    Change store next := by
  simp only [admitTool, bind_eq_ok, mapError_eq_ok] at done
  obtain ⟨reservation, admitted, current, found, done⟩ := done
  have key := BudgetToolReservation.reserve_eq_ok admitted
  have own : reservation.scopeId = scopeId := (Prod.mk.inj key).1
  cases existing : store.toolAt (scopeId, callId) with
  | some value =>
    rw [existing] at done
    simp only [bind_eq_ok, pair_eq_ok] at done
    obtain ⟨_, _, _, same⟩ := done
    subst same
    exact .unchanged
  | none =>
    rw [existing] at done
    simp only [bind_eq_ok, mapError_eq_ok, pair_eq_ok] at done
    obtain ⟨_, passed, updated, built, _, same⟩ := done
    subst same
    refine .toolAdmitted ?_ ?_ (below_of_checkAdmission passed) (BudgetUsage.build_eq_ok built)
    · rw [own]
      exact orRaise_eq_ok.mp found
    · rw [key]
      exact existing

theorem change_of_perform {call : BudgetCall} (done : call.perform store = .ok (usage, next)) :
    Change store next := by
  cases call with
  | ensure => exact change_of_ensure done
  | admitModel => exact change_of_admitModel done
  | settleModel => exact change_of_settleModel done
  | admitTool => exact change_of_admitTool done

theorem change_of_step {label : BudgetCall × Except Refusal BudgetUsage}
    (step : budgetMachine.step store label next) : Change store next := by
  have answered : (label.2, next) = label.1.respond store := step
  unfold BudgetCall.respond at answered
  cases performed : label.1.perform store with
  | ok outcome =>
    rw [performed] at answered
    rw [(Prod.mk.inj answered).2]
    exact change_of_perform performed
  | error refusal =>
    rw [performed] at answered
    rw [(Prod.mk.inj answered).2]
    exact .unchanged

namespace BudgetStore

@[simp] theorem modelsOf_replaceUsage :
    (store.replaceUsage usage).modelsOf scopeId = store.modelsOf scopeId := rfl

@[simp] theorem toolsOf_replaceUsage :
    (store.replaceUsage usage).toolsOf scopeId = store.toolsOf scopeId := rfl

variable {reservation : BudgetModelReservation}

theorem modelsOf_insertModel :
    (store.insertModel reservation).modelsOf scopeId =
      store.modelsOf scopeId ++ if reservation.scopeId = scopeId then [reservation] else [] := by
  rw [modelsOf, insertModel, filter_append, ← modelsOf]
  by_cases own : reservation.scopeId = scopeId <;> simp [own]

theorem toolsOf_insertTool {reservation : BudgetToolReservation} :
    (store.insertTool reservation).toolsOf scopeId =
      store.toolsOf scopeId ++ if reservation.scopeId = scopeId then [reservation] else [] := by
  rw [toolsOf, insertTool, filter_append, ← toolsOf]
  by_cases own : reservation.scopeId = scopeId <;> simp [own]

theorem scopeId_of_scopeAt (found : store.scopeAt scopeId = some usage) :
    usage.scopeId = scopeId := by
  have matching := find?_some found
  exact of_decide_eq_true matching

theorem modelsOf_replaceModel {reservation : BudgetModelReservation} {totalTokens : Option Nat}
    (distinct : (store.models.map (·.key)).Nodup)
    (reserved : store.modelAt reservation.key = some reservation) :
    if reservation.scopeId = scopeId then
      ∃ before after, store.modelsOf scopeId = before ++ reservation :: after ∧
        (store.replaceModel (reservation.settle totalTokens)).modelsOf scopeId =
          before ++ reservation.settle totalTokens :: after
    else (store.replaceModel (reservation.settle totalTokens)).modelsOf scopeId =
      store.modelsOf scopeId := by
  obtain ⟨before, after, split, rewritten⟩ :=
    exists_split_rewriteAt (reservation.settle totalTokens) distinct reserved
  have own : (reservation.settle totalTokens).scopeId = reservation.scopeId := rfl
  rw [modelsOf, modelsOf, replaceModel, BudgetModelReservation.key_settle, rewritten, split]
  split_ifs with same
  case pos =>
    refine ⟨before.filter fun reservation => reservation.scopeId = scopeId,
      after.filter fun reservation => reservation.scopeId = scopeId, ?_, ?_⟩
    · simp [same]
    · simp [own, same]
  case neg => simp [own, same]

end BudgetStore

structure Accounted (store : BudgetStore) : Prop where
  scopes_distinct : (store.scopes.map (·.scopeId)).Nodup
  models_distinct : (store.models.map (·.key)).Nodup
  models_scoped : ∀ reservation ∈ store.models, reservation.scopeId ∈ store.scopes.map (·.scopeId)
  tools_scoped : ∀ reservation ∈ store.tools, reservation.scopeId ∈ store.scopes.map (·.scopeId)
  balanced : ∀ usage ∈ store.scopes, store.Balanced usage
  limited : ∀ usage ∈ store.scopes, usage.WithinLimits

theorem accounted_empty : Accounted {} := by
  constructor <;> simp

variable {updated : BudgetUsage}

theorem Accounted.replaceUsage (accounted : Accounted before)
    (sameScopes : store.scopes = before.scopes) (distinct : (store.models.map (·.key)).Nodup)
    (modelsScoped : ∀ reservation ∈ store.models, reservation ∈ before.models ∨
      reservation.scopeId = updated.scopeId)
    (toolsScoped : ∀ reservation ∈ store.tools, reservation ∈ before.tools ∨
      reservation.scopeId = updated.scopeId) (found : before.scopeAt updated.scopeId = some usage)
    (others : ∀ scopeId, scopeId ≠ updated.scopeId →
      store.modelsOf scopeId = before.modelsOf scopeId ∧
        store.toolsOf scopeId = before.toolsOf scopeId) (balanced : store.Balanced updated)
    (limited : updated.WithinLimits) :
    Accounted (store.replaceUsage updated) := by
  have scopes : (store.replaceUsage updated).scopes.map (·.scopeId) =
      before.scopes.map (·.scopeId) := by
    rw [BudgetStore.replaceUsage, sameScopes]
    exact map_key_rewriteAt rfl
  have present : updated.scopeId ∈ before.scopes.map (·.scopeId) :=
    rowAt_isSome_iff.mp ⟨usage, found⟩
  have rows : ∀ row ∈ (store.replaceUsage updated).scopes,
      row = updated ∨ row ∈ before.scopes ∧ row.scopeId ≠ updated.scopeId := by
    intro row member
    rw [BudgetStore.replaceUsage, sameScopes] at member
    exact mem_rewriteAt member
  constructor
  case scopes_distinct =>
    rw [scopes]
    exact accounted.scopes_distinct
  case models_distinct => exact distinct
  case models_scoped =>
    intro reservation member
    rw [scopes]
    cases modelsScoped reservation member with
    | inl earlier => exact accounted.models_scoped reservation earlier
    | inr own => rw [own]; exact present
  case tools_scoped =>
    intro reservation member
    rw [scopes]
    cases toolsScoped reservation member with
    | inl earlier => exact accounted.tools_scoped reservation earlier
    | inr own => rw [own]; exact present
  case balanced =>
    intro row member
    cases rows row member with
    | inl same =>
      rw [same]
      exact ⟨balanced.modelRequests, balanced.inFlight, balanced.unknown, balanced.totalTokens,
        balanced.toolCalls⟩
    | inr other =>
      obtain ⟨sameModels, sameTools⟩ := others row.scopeId other.2
      have earlier := accounted.balanced row other.1
      exact {
        modelRequests := by
          rw [BudgetStore.modelsOf_replaceUsage, sameModels]
          exact earlier.modelRequests
        inFlight := by
          rw [BudgetStore.statusCount, BudgetStore.modelsOf_replaceUsage, sameModels]
          exact earlier.inFlight
        unknown := by
          rw [BudgetStore.statusCount, BudgetStore.modelsOf_replaceUsage, sameModels]
          exact earlier.unknown
        totalTokens := by
          rw [BudgetStore.settledTokens, BudgetStore.modelsOf_replaceUsage, sameModels]
          exact earlier.totalTokens
        toolCalls := by
          rw [BudgetStore.toolsOf_replaceUsage, sameTools]
          exact earlier.toolCalls }
  case limited =>
    intro row member
    cases rows row member with
    | inl same =>
      rw [same]
      exact limited
    | inr other => exact accounted.limited row other.1

theorem Accounted.opened (accounted : Accounted store) (absent : store.scopeAt usage.scopeId = none)
    (fields : usage.toBudgetUsageFields = { scopeId := usage.scopeId, limits := limits }) :
    Accounted { store with scopes := store.scopes ++ [usage] } := by
  have fresh : usage.scopeId ∉ store.scopes.map (·.scopeId) := rowAt_eq_none_iff.mp absent
  have noModels : store.modelsOf usage.scopeId = [] := by
    rw [BudgetStore.modelsOf, filter_eq_nil_iff]
    intro reservation member
    rw [decide_eq_true_eq]
    exact fun same => fresh (same ▸ accounted.models_scoped reservation member)
  have noTools : store.toolsOf usage.scopeId = [] := by
    rw [BudgetStore.toolsOf, filter_eq_nil_iff]
    intro reservation member
    rw [decide_eq_true_eq]
    exact fun same => fresh (same ▸ accounted.tools_scoped reservation member)
  constructor
  case scopes_distinct =>
    rw [map_append, map_singleton]
    exact concat_eq_append ▸ List.Nodup.concat fresh accounted.scopes_distinct
  case models_distinct => exact accounted.models_distinct
  case models_scoped =>
    intro reservation member
    rw [map_append]
    exact mem_append_left _ (accounted.models_scoped reservation member)
  case tools_scoped =>
    intro reservation member
    rw [map_append]
    exact mem_append_left _ (accounted.tools_scoped reservation member)
  case balanced =>
    intro row member
    cases mem_append.mp member with
    | inl earlier =>
      have balanced := accounted.balanced row earlier
      exact ⟨balanced.modelRequests, balanced.inFlight, balanced.unknown, balanced.totalTokens,
        balanced.toolCalls⟩
    | inr new =>
      cases mem_singleton.mp new
      constructor
      case modelRequests =>
        change _ = ((store.modelsOf usage.scopeId).length : Int)
        rw [fields, noModels]
        rfl
      case inFlight =>
        change _ = ((store.statusCount usage.scopeId .inFlight : Nat) : Int)
        rw [BudgetStore.statusCount, noModels, fields]
        rfl
      case unknown =>
        change _ = ((store.statusCount usage.scopeId .unknown : Nat) : Int)
        rw [BudgetStore.statusCount, noModels, fields]
        rfl
      case totalTokens =>
        change _ = ((store.settledTokens usage.scopeId : Nat) : Int)
        rw [BudgetStore.settledTokens, noModels, fields]
        rfl
      case toolCalls =>
        change _ = ((store.toolsOf usage.scopeId).length : Int)
        rw [noTools, fields]
        rfl
  case limited =>
    intro row member
    cases mem_append.mp member with
    | inl earlier => exact accounted.limited row earlier
    | inr new =>
      cases mem_singleton.mp new
      constructor
      case modelRequests =>
        intro limit _
        rw [fields]
        exact Int.natCast_nonneg limit
      case toolCalls =>
        intro limit _
        rw [fields]
        exact Int.natCast_nonneg limit

variable {reservation : BudgetModelReservation}

section

variable (accounted : Accounted store)
include accounted

theorem Accounted.modelAdmitted (found : store.scopeAt reservation.scopeId = some usage)
    (absent : store.modelAt reservation.key = none)
    (begins : reservation.status = .inFlight ∧ reservation.totalTokens = none)
    (below : ∀ limit ∈ usage.limits.modelRequests, usage.modelRequests < limit)
    (fields : updated.toBudgetUsageFields = { usage.toBudgetUsageFields with
      modelRequests := usage.modelRequests + 1
      inFlightModelRequests := usage.inFlightModelRequests + 1 }) :
    Accounted ((store.insertModel reservation).replaceUsage updated) := by
  have scope : usage.scopeId = reservation.scopeId := BudgetStore.scopeId_of_scopeAt found
  have own : updated.scopeId = reservation.scopeId := by rw [fields]; exact scope
  have balanced := accounted.balanced usage (rowAt_mem found)
  have limited := accounted.limited usage (rowAt_mem found)
  have models : (store.insertModel reservation).modelsOf updated.scopeId =
      store.modelsOf usage.scopeId ++ [reservation] := by
    rw [BudgetStore.modelsOf_insertModel, own, if_pos rfl, scope]
  refine accounted.replaceUsage rfl ?_ ?_ ?_ (by rw [own]; exact found) ?_ ?_ ?_
  · rw [BudgetStore.insertModel, map_append, map_singleton]
    exact concat_eq_append ▸
      List.Nodup.concat (rowAt_eq_none_iff.mp absent) accounted.models_distinct
  · intro row member
    cases mem_append.mp member with
    | inl earlier => exact .inl earlier
    | inr new =>
      cases mem_singleton.mp new
      exact .inr own.symm
  · exact fun row member => .inl member
  · intro other different
    refine ⟨?_, rfl⟩
    rw [BudgetStore.modelsOf_insertModel, if_neg, append_nil]
    exact fun same => different (own ▸ same.symm)
  · constructor
    case modelRequests =>
      rw [models, fields, length_append, length_singleton]
      have before := balanced.modelRequests
      push_cast
      omega
    case inFlight =>
      rw [BudgetStore.statusCount, models, fields, countP_append,
        countP_singleton, if_pos (decide_eq_true begins.1)]
      have before := balanced.inFlight
      rw [BudgetStore.statusCount] at before
      push_cast
      omega
    case unknown =>
      rw [BudgetStore.statusCount, models, fields, countP_append,
        countP_singleton, if_neg (by rw [begins.1]; decide)]
      exact balanced.unknown
    case totalTokens =>
      rw [BudgetStore.settledTokens, models, fields, filterMap_append, sum_append,
        filterMap_cons_none begins.2]
      exact balanced.totalTokens
    case toolCalls =>
      rw [fields]
      exact balanced.toolCalls
  · constructor
    case modelRequests =>
      intro limit limits
      rw [fields] at limits ⊢
      exact below limit limits
    case toolCalls =>
      intro limit limits
      rw [fields] at limits ⊢
      exact limited.toolCalls limit limits

theorem Accounted.toolAdmitted {reservation : BudgetToolReservation}
    (found : store.scopeAt reservation.scopeId = some usage)
    (below : ∀ limit ∈ usage.limits.toolCalls, usage.toolCalls < limit)
    (fields : updated.toBudgetUsageFields = { usage.toBudgetUsageFields with
      toolCalls := usage.toolCalls + 1 }) :
    Accounted ((store.insertTool reservation).replaceUsage updated) := by
  have scope : usage.scopeId = reservation.scopeId := BudgetStore.scopeId_of_scopeAt found
  have own : updated.scopeId = reservation.scopeId := by rw [fields]; exact scope
  have balanced := accounted.balanced usage (rowAt_mem found)
  have limited := accounted.limited usage (rowAt_mem found)
  refine accounted.replaceUsage rfl accounted.models_distinct (fun row member => .inl member) ?_
    (by rw [own]; exact found) ?_ ?_ ?_
  · intro row member
    cases mem_append.mp member with
    | inl earlier => exact .inl earlier
    | inr new =>
      cases mem_singleton.mp new
      exact .inr own.symm
  · intro other different
    refine ⟨rfl, ?_⟩
    rw [BudgetStore.toolsOf_insertTool, if_neg, append_nil]
    exact fun same => different (own ▸ same.symm)
  · constructor
    case modelRequests =>
      rw [fields]
      exact balanced.modelRequests
    case inFlight =>
      rw [fields]
      exact balanced.inFlight
    case unknown =>
      rw [fields]
      exact balanced.unknown
    case totalTokens =>
      rw [fields]
      exact balanced.totalTokens
    case toolCalls =>
      rw [BudgetStore.toolsOf_insertTool, own, if_pos rfl, fields, ← scope, length_append,
        length_singleton]
      have before := balanced.toolCalls
      push_cast
      omega
  · constructor
    case modelRequests =>
      intro limit limits
      rw [fields] at limits ⊢
      exact limited.modelRequests limit limits
    case toolCalls =>
      intro limit limits
      rw [fields] at limits ⊢
      exact below limit limits

theorem Accounted.modelSettled {totalTokens : Option Nat}
    (found : store.scopeAt reservation.scopeId = some usage)
    (reserved : store.modelAt reservation.key = some reservation)
    (inFlight : reservation.status = .inFlight)
    (fields : updated.toBudgetUsageFields = BudgetOwner.settledUsage usage totalTokens) :
    Accounted ((store.replaceModel (reservation.settle totalTokens)).replaceUsage updated) := by
  have scope : usage.scopeId = reservation.scopeId := BudgetStore.scopeId_of_scopeAt found
  have own : updated.scopeId = reservation.scopeId := by rw [fields]; exact scope
  have balanced := accounted.balanced usage (rowAt_mem found)
  have limited := accounted.limited usage (rowAt_mem found)
  have moved (scopeId : String) :=
    @BudgetStore.modelsOf_replaceModel store scopeId reservation totalTokens
      accounted.models_distinct reserved
  obtain ⟨before, after, split, rewritten⟩ := (if_pos scope.symm).mp (moved usage.scopeId)
  refine accounted.replaceUsage rfl ?_ ?_ (fun row member => .inl member)
    (by rw [own]; exact found) ?_ ?_ ?_
  · rw [BudgetStore.replaceModel, map_key_rewriteAt rfl]
    exact accounted.models_distinct
  · intro row member
    cases mem_rewriteAt member with
    | inl same =>
      rw [same]
      exact .inr own.symm
    | inr other => exact .inl other.1
  · intro other different
    refine ⟨(if_neg ?_).mp (moved other), rfl⟩
    exact fun same => different (own ▸ same.symm)
  · have models : (store.replaceModel (reservation.settle totalTokens)).modelsOf
        updated.scopeId = before ++ reservation.settle totalTokens :: after := by
      rw [own, ← scope]
      exact rewritten
    constructor
    case modelRequests =>
      rw [models, fields]
      have earlier := balanced.modelRequests
      rw [split] at earlier
      simpa [settledUsage] using earlier
    case inFlight =>
      have earlier := balanced.inFlight
      rw [BudgetStore.statusCount, split, countP_append,
        countP_cons_of_pos (by simp [inFlight])] at earlier
      rw [BudgetStore.statusCount, models, fields, countP_append,
        countP_cons_of_neg (by simp [ReservationStatus.settling_ne_inFlight])]
      change usage.inFlightModelRequests - 1 = _
      push_cast at earlier ⊢
      omega
    case unknown =>
      have earlier := balanced.unknown
      rw [BudgetStore.statusCount, split, countP_append,
        countP_cons_of_neg (by simp [inFlight])] at earlier
      rw [BudgetStore.statusCount, models, fields, countP_append, countP_cons]
      change usage.unknownModelRequests + (if totalTokens = none then 1 else 0) = _
      rw [earlier]
      simp only [decide_eq_true_eq, BudgetModelReservation.status_settle,
        ReservationStatus.settling_eq_unknown]
      split <;> push_cast <;> omega
    case totalTokens =>
      have earlier := balanced.totalTokens
      rw [BudgetStore.settledTokens, split, filterMap_append,
        filterMap_cons_none (BudgetModelReservation.totalTokens_of_inFlight inFlight),
        sum_append] at earlier
      rw [BudgetStore.settledTokens, models, fields, filterMap_append, sum_append]
      change usage.totalTokens + (totalTokens.getD 0 : Nat) = _
      rw [earlier]
      cases totalTokens with
      | none =>
        rw [filterMap_cons_none rfl]
        rfl
      | some tokens =>
        have own : (reservation.settle (some tokens)).totalTokens = some tokens := rfl
        rw [filterMap_cons_some own, sum_cons, Option.getD_some]
        push_cast
        omega
    case toolCalls =>
      rw [fields]
      exact balanced.toolCalls
  · constructor
    case modelRequests =>
      intro limit limits
      rw [fields] at limits ⊢
      exact limited.modelRequests limit limits
    case toolCalls =>
      intro limit limits
      rw [fields] at limits ⊢
      exact limited.toolCalls limit limits

theorem Accounted.change (change : Change store next) : Accounted next := by
  cases change with
  | unchanged => exact accounted
  | opened absent fields => exact accounted.opened absent fields
  | modelAdmitted found absent begins below fields =>
    exact accounted.modelAdmitted found absent begins below fields
  | modelSettled found reserved inFlight fields =>
    exact accounted.modelSettled found reserved inFlight fields
  | toolAdmitted found _ below fields => exact accounted.toolAdmitted found below fields

end

theorem accounted_of_reachable (reachable : budgetMachine.Reachable store) : Accounted store := by
  apply reachable.invariant
  · intro initial isInitial
    rw [show initial = {} from isInitial]
    exact accounted_empty
  · intro before label after _ earlier step
    exact earlier.change (change_of_step step)

variable {key : String × String}

theorem Change.keeps_settled (change : Change store next)
    (reserved : store.modelAt key = some reservation) (settled : reservation.status ≠ .inFlight) :
    next.modelAt key = some reservation := by
  cases change with
  | unchanged => exact reserved
  | opened => exact reserved
  | modelAdmitted =>
    change rowAt BudgetModelReservation.key (store.models ++ _) key = some reservation
    rw [rowAt_append, show rowAt BudgetModelReservation.key store.models key = some reservation
      from reserved, Option.some_or]
  | modelSettled found other inFlight fields =>
    refine (rowAt_rewriteAt_of_ne rfl ?_).trans reserved
    intro same
    rw [same, BudgetModelReservation.key_settle, other] at reserved
    cases reserved
    exact settled inFlight
  | toolAdmitted => exact reserved

theorem kept_settled (reachable : budgetMachine.Reachable store)
    (run : budgetMachine.Run store labels next) (reserved : store.modelAt key = some reservation)
    (settled : reservation.status ≠ .inFlight) : next.modelAt key = some reservation := by
  refine @Machine.Run.preserves _ _ budgetMachine
    (fun state => state.modelAt key = some reservation) ?_ _ _ _ reachable reserved run
  intro before label after _ earlier step
  exact (change_of_step step).keeps_settled earlier settled

/-- The tokens a settlement has to name to repeat the one that was made. -/
def BudgetModelReservation.outcome (reservation : BudgetModelReservation) : Option Int :=
  reservation.totalTokens.map Int.ofNat

theorem BudgetModelReservation.outcome_not_negative :
    ¬reservation.outcome.any fun tokens : Int => tokens < 0 := by
  unfold outcome
  cases reservation.totalTokens <;> simp

theorem BudgetModelReservation.status_of_settled (settled : reservation.status ≠ .inFlight) :
    reservation.status = .settling reservation.totalTokens := by
  have consistent := reservation.consistent
  unfold ReservationStatus.settling
  cases status : reservation.status with
  | inFlight => exact absurd status settled
  | settled => rw [if_neg (consistent.mp status)]
  | unknown =>
    rw [if_pos]
    by_contra tokens
    rw [consistent.mpr tokens] at status
    cases status

/-- A second settlement answers with the usage when it repeats the first one; any other one
raises.  Neither writes anything. -/
theorem settleModel_of_settled (found : store.scopeAt reservation.scopeId = some usage)
    (reserved : store.modelAt reservation.key = some reservation)
    (settled : reservation.status ≠ .inFlight) :
    (BudgetCall.settleModel reservation.scopeId reservation.requestId totalTokens).respond store =
      (if totalTokens = reservation.outcome then .ok usage
        else if totalTokens.any fun tokens : Int => tokens < 0 then
          .error (.raised (.valueError "total_tokens must be a non-negative integer or None"))
        else .error settlementChanged, store) := by
  have scope : store.scopeRecord reservation.scopeId = .ok usage := orRaise_eq_ok.mpr found
  have row : orRaise (store.modelAt (reservation.scopeId, reservation.requestId))
      (Refusal.raised .integrity) = .ok reservation := orRaise_eq_ok.mpr reserved
  unfold BudgetCall.respond BudgetCall.perform settleModel
  by_cases negative : totalTokens.any fun tokens : Int => tokens < 0
  case pos =>
    have different : totalTokens ≠ reservation.outcome :=
      fun same => reservation.outcome_not_negative (same ▸ negative)
    simp only [refuse_of negative, error_bind, if_neg different, if_pos negative]
  case neg =>
    simp only [refuse_of_not negative, ok_bind, scope, row]
    rw [if_pos settled, if_neg negative]
    by_cases same : totalTokens = reservation.outcome
    case pos =>
      have tokens : totalTokens.map Int.toNat = reservation.totalTokens := by
        rw [same, BudgetModelReservation.outcome, Option.map_map]
        exact Option.map_id'
      rw [if_pos same, refuse_of_not, ok_bind]
      · rfl
      · rw [tokens, not_or, not_not, not_not]
        exact ⟨BudgetModelReservation.status_of_settled settled, rfl⟩
    case neg =>
      rw [if_neg same, refuse_of, error_bind]
      right
      intro tokens
      apply same
      rw [BudgetModelReservation.outcome, tokens]
      cases totalTokens with
      | none => rfl
      | some value =>
        have nonnegative : 0 ≤ value := by simpa using negative
        rw [Option.map_some, Option.map_some]
        exact congrArg some (Int.toNat_of_nonneg nonnegative).symm

theorem budget_usage_is_accounted :
    (∀ store, budgetMachine.Reachable store → ∀ usage ∈ store.scopes,
      store.Balanced usage ∧ usage.WithinLimits) ∧
    (∀ store labels next key reservation, budgetMachine.Reachable store →
      budgetMachine.Run store labels next → store.modelAt key = some reservation →
      reservation.status ≠ .inFlight → next.modelAt key = some reservation) ∧
    (∀ store (reservation : BudgetModelReservation) totalTokens,
      budgetMachine.Reachable store → store.modelAt reservation.key = some reservation →
      reservation.status ≠ .inFlight → ∃ usage, store.scopeAt reservation.scopeId = some usage ∧
        (BudgetCall.settleModel reservation.scopeId reservation.requestId
          totalTokens).respond store = (if totalTokens = reservation.outcome then .ok usage
            else if totalTokens.any fun tokens : Int => tokens < 0 then
              .error (.raised (.valueError "total_tokens must be a non-negative integer or None"))
            else .error settlementChanged, store)) := by
  refine ⟨?_, ?_, ?_⟩
  · intro store reachable usage member
    have accounted := accounted_of_reachable reachable
    exact ⟨accounted.balanced usage member, accounted.limited usage member⟩
  · intro store labels next key reservation reachable run reserved settled
    exact kept_settled reachable run reserved settled
  · intro store reservation totalTokens reachable reserved settled
    have accounted := accounted_of_reachable reachable
    obtain ⟨usage, found⟩ :=
      rowAt_isSome_iff.mpr (accounted.models_scoped reservation (rowAt_mem reserved))
    exact ⟨usage, found, settleModel_of_settled found reserved settled⟩

def sampleReservation : BudgetModelReservation where
  scopeId := "s"
  requestId := "r"
  ownerId := "o"
  admissionId := "a"
  status := .settled
  totalTokens := some 5
  identified := by decide
  consistent := by decide

def sampleStore : BudgetStore :=
  [.ensure "s" {}, .admitModel ⟨"o", []⟩ 0 "s" "r" "a", .settleModel "s" "r" (some 5)].foldl
    (fun store call => (BudgetCall.respond call store).2) {}

theorem sample_settlement_is_final :
    (∀ usage ∈ sampleStore.scopes, sampleStore.Balanced usage ∧ usage.WithinLimits) ∧
      (BudgetCall.settleModel "s" "r" (some 7)).respond sampleStore =
        (.error settlementChanged, sampleStore) := by
  have step {store : BudgetStore} (call : BudgetCall) (reachable : budgetMachine.Reachable store) :
      budgetMachine.Reachable (call.respond store).2 := by
    have taken : budgetMachine.step store (call, (call.respond store).1) (call.respond store).2 :=
      rfl
    exact reachable.step taken
  have reachable : budgetMachine.Reachable sampleStore := step _ (step _ (step _ (.of_initial rfl)))
  have found : sampleStore.modelAt sampleReservation.key = some sampleReservation := rfl
  obtain ⟨_, _, answered⟩ :=
    budget_usage_is_accounted.2.2 sampleStore sampleReservation (some 7) reachable found nofun
  exact ⟨budget_usage_is_accounted.1 sampleStore reachable, answered⟩

end Linktools.Budget
