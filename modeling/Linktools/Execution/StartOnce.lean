import Linktools.Execution.Histories

namespace Linktools.Execution

open Linktools.Core Library ExecutionRepository ExecutionStore

inductive StartCall
  | reserve (reservation : ExecutionStartReservation)
      (contextPublished : Option (Except Raised Unit))
  | claim (claim : ExecutionStartClaim)

inductive StartAnswer
  | reserved (result : ExecutionStartReservationResult)
  | claimed (execution : ExecutionRecord)

def StartCall.run (store : ExecutionStore) : StartCall →
    Except Raised (StartAnswer × ExecutionStore)
  | .reserve reservation contextPublished =>
    (fun (result, after) => (.reserved result, after)) <$>
      reserveStart store reservation contextPublished
  | .claim request =>
    (fun (execution, after) => (.claimed execution, after)) <$> claimStart store request

/-- What every caller passes: the idempotency record names the execution that it reserves,
and a budget is admitted under that execution's own scope. -/
def StartCall.WellFormed : StartCall → Prop
  | .reserve reservation _ =>
    reservation.idempotency.resourceKind = executionKind ∧
    reservation.idempotency.resourceId = reservation.execution.executionId ∧
    (reservation.budget ≠ none → reservation.execution.budgetScopeId =
      some ("execution:" ++ reservation.execution.executionId))
  | .claim _ => True

structure StartLabel where
  call : StartCall
  outcome : Except Raised StartAnswer

def Indexed (store : ExecutionStore) : Prop :=
  ∀ row ∈ store.idempotency, row.value.resourceKind = executionKind ∧
    ∃ winner, store.executions row.value.resourceId = some winner ∧
      winner.value.executionId = row.value.resourceId

/-- Calls in any order; a call that raises leaves the store as it was. -/
def startMachine : Machine ExecutionStore StartLabel where
  initial := Indexed
  step first label last := label.call.WellFormed ∧
    match label.call.run first with
    | .ok (answer, after) => label.outcome = .ok answer ∧ last = after
    | .error raised => label.outcome = .error raised ∧ last = first

namespace StartLabel

/-- The label of a reservation that has created an execution under an identity. -/
def creates (identity : String × String) (label : StartLabel) : Bool :=
  match label.call, label.outcome with
  | .reserve reservation _, .ok (.reserved result) =>
    result.created && decide (reservation.idempotency.identityKey = identity)
  | _, _ => false

/-- The label of a claim that has started an execution under an identity. -/
def claims (identity : String × String) (label : StartLabel) : Bool :=
  match label.call, label.outcome with
  | .claim claim, .ok (.claimed _) =>
    decide ((claim.scope, claim.idempotencyKeyDigest) = identity)
  | _, _ => false

end StartLabel

/-- What a reservation answers: it creates its execution under an unused identity or raises;
under a used identity it writes nothing, and answers the same request with the execution of
the identity and its current idempotency record, and raises on another request. -/
def AnswersReservation (first : ExecutionStore) (reservation : ExecutionStartReservation)
    (outcome : Except Raised StartAnswer) (last : ExecutionStore) : Prop :=
  match first.idempotencyAt reservation.idempotency.identityKey with
  | none =>
    (outcome = .ok (.reserved ⟨reservation.execution, reservation.idempotency, true⟩) ∧
      last.idempotencyAt reservation.idempotency.identityKey = some ⟨reservation.idempotency, 0⟩ ∧
      last.executions reservation.execution.executionId = some ⟨reservation.execution, 0⟩) ∨
    ∃ raised, outcome = .error raised ∧ last = first
  | some row => last = first ∧
      if row.value.requestDigest = reservation.idempotency.requestDigest then
        ∃ winner, first.executions row.value.resourceId = some winner ∧
          outcome = .ok (.reserved ⟨winner.value, row.value, false⟩)
      else ∃ raised, outcome = .error raised

/-- What a start call leaves: the identities with their executions and their statuses once
started, the executions under their keys, and no other execution than one it has created. -/
structure StartEffect (created : Option String) (store after : ExecutionStore) : Prop where
  rows : ∀ identity row, store.idempotencyAt identity = some row →
    ∃ later, after.idempotencyAt identity = some later ∧
      later.value.requestDigest = row.value.requestDigest ∧
      later.value.resourceId = row.value.resourceId ∧ (row.value.status ≠ .reserved → later = row)
  executions : ∀ executionId row, store.executions executionId = some row →
    ∃ later, after.executions executionId = some later ∧
      later.value.executionId = row.value.executionId
  fresh : ∀ executionId, after.executions executionId ≠ none →
    store.executions executionId ≠ none ∨ created = some executionId

section Effects

variable {store middle after : ExecutionStore} {created : Option String}

theorem StartEffect.refl : StartEffect created store store where
  rows _ row found := ⟨row, found, rfl, rfl, fun _ => rfl⟩
  executions _ row found := ⟨row, found, rfl⟩
  fresh _ present := .inl present

theorem StartEffect.trans (left : StartEffect created store middle)
    (right : StartEffect created middle after) : StartEffect created store after where
  rows identity row found := by
    obtain ⟨between, kept, digest, resource, settled⟩ := left.rows identity row found
    obtain ⟨later, stored, further, still, stays⟩ := right.rows identity between kept
    refine ⟨later, stored, further.trans digest, still.trans resource, fun started => ?_⟩
    have same := settled started
    subst same
    exact stays started
  executions executionId row found := by
    obtain ⟨between, kept, named⟩ := left.executions executionId row found
    obtain ⟨later, stored, still⟩ := right.executions executionId between kept
    exact ⟨later, stored, still.trans named⟩
  fresh executionId present := by
    cases right.fresh executionId present with
    | inl before => exact left.fresh executionId before
    | inr same => exact .inr same

theorem Guarded.startEffect (guarded : Guarded store after) : StartEffect created store after where
  rows identity row found := by
    refine ⟨row, ?_, rfl, rfl, fun _ => rfl⟩
    unfold idempotencyAt
    rw [guarded.idempotency]
    exact found
  executions executionId row found := by
    have kept := guarded.rows executionId
    rw [found] at kept
    generalize after.executions executionId = later at kept
    cases kept with
    | same => exact ⟨row, rfl, rfl⟩
    | guarded => exact ⟨_, rfl, rfl⟩
  fresh executionId present := by
    refine .inl fun absent => present ?_
    have kept := guarded.rows executionId
    rw [absent] at kept
    generalize after.executions executionId = later at kept
    cases kept with
    | same => rfl

theorem StartEffect.of_eq (executions : after.executions = store.executions)
    (idempotency : after.idempotency = store.idempotency) : StartEffect created store after where
  rows identity row found := by
    refine ⟨row, ?_, rfl, rfl, fun _ => rfl⟩
    unfold idempotencyAt
    rw [idempotency]
    exact found
  executions executionId row found := ⟨row, executions ▸ found, rfl⟩
  fresh executionId present := .inl (executions ▸ present)

variable {record : ExecutionRecord}

theorem insertExecution_startEffect (inserted : store.insertExecution record = .ok after) :
    StartEffect (some record.executionId) store after := by
  obtain ⟨absent, rfl⟩ := insertExecution_ok inserted
  refine ⟨fun _ row found => ⟨row, found, rfl, rfl, fun _ => rfl⟩, ?_, ?_⟩
  · intro executionId row found
    have other : executionId ≠ record.executionId := by
      rintro rfl
      cases absent.symm.trans found
    exact ⟨row, (Function.update_of_ne other _ _).trans found, rfl⟩
  · intro executionId present
    by_cases same : executionId = record.executionId
    case pos => exact .inr (congrArg some same.symm)
    case neg =>
      refine .inl fun before => present ?_
      exact (Function.update_of_ne same _ _).trans before

theorem replaceChecked_startEffect (replaced : store.replaceChecked record expected = .ok after)
    (named : ∀ row, store.executions record.executionId = some row →
      row.value.executionId = record.executionId) : StartEffect created store after := by
  obtain ⟨current, stored, _, _, _, rfl⟩ := replaceChecked_ok replaced
  refine ⟨fun _ row found => ⟨row, found, rfl, rfl, fun _ => rfl⟩, ?_, ?_⟩
  · intro executionId row found
    by_cases same : executionId = record.executionId
    case pos =>
      subst same
      exact ⟨_, Function.update_self _ _ _, (named row found).symm⟩
    case neg => exact ⟨row, (Function.update_of_ne same _ _).trans found, rfl⟩
  · intro executionId present
    by_cases same : executionId = record.executionId
    case pos =>
      subst same
      exact .inl (by rw [stored]; exact nofun)
    case neg => exact .inl fun before => present ((Function.update_of_ne same _ _).trans before)

theorem idempotencyAt_append (rows : after.idempotency = store.idempotency ++ [row]) :
    after.idempotencyAt identity =
      (store.idempotencyAt identity).or (rowAt idempotencyKey [row] identity) := by
  unfold idempotencyAt
  rw [rows, rowAt_append]

theorem insertIdempotency_startEffect {record : IdempotencyRecord}
    (inserted : store.insertIdempotency record = .ok after) : StartEffect created store after := by
  obtain ⟨_, rfl⟩ := insertIdempotency_ok inserted
  refine ⟨fun identity row found => ⟨row, ?_, rfl, rfl, fun _ => rfl⟩,
    fun _ row found => ⟨row, found, rfl⟩, fun _ present => .inl present⟩
  rw [idempotencyAt_append rfl, found]
  rfl

theorem rewriteIdempotency_startEffect
    (found : store.idempotencyAt stored.value.identityKey = some stored)
    (reserved : stored.value.status = .reserved)
    (identity : idempotencyKey next = stored.value.identityKey)
    (digest : next.value.requestDigest = stored.value.requestDigest)
    (resource : next.value.resourceId = stored.value.resourceId)
    (frame : after = { store with idempotency := after.idempotency }) (rows : after.idempotency =
      rewriteAt idempotencyKey store.idempotency stored.value.identityKey next) :
    StartEffect created store after := by
  refine ⟨?_, fun _ row found => ⟨row, ?_, rfl⟩, fun _ present => .inl ?_⟩
  · intro wanted row present
    unfold idempotencyAt at found present ⊢
    rw [rows]
    by_cases same : wanted = stored.value.identityKey
    case pos =>
      subst same
      cases found.symm.trans present
      refine ⟨next, rowAt_rewriteAt_self next identity ?_, digest, resource, ?_⟩
      · exact rowAt_isSome_iff.mp ⟨_, found⟩
      · exact fun started => absurd reserved started
    case neg =>
      exact ⟨row, (rowAt_rewriteAt_of_ne identity same).trans present, rfl, rfl, fun _ => rfl⟩
  · rw [frame]
    exact found
  · rw [frame] at present
    exact present

theorem StartEffect.indexed (effect : StartEffect created store after) (indexed : Indexed store)
    (rows : ∀ row ∈ after.idempotency, row ∈ store.idempotency ∨
      row.value.resourceKind = executionKind ∧
        ∃ winner, after.executions row.value.resourceId = some winner ∧
          winner.value.executionId = row.value.resourceId) : Indexed after := by
  intro row member
  cases rows row member with
  | inl old =>
    obtain ⟨kind, winner, stored, named⟩ := indexed row old
    obtain ⟨later, kept, same⟩ := effect.executions _ winner stored
    exact ⟨kind, later, kept, same.trans named⟩
  | inr new => exact new

end Effects

namespace ExecutionRepository

variable {store after : ExecutionStore} {reservation : ExecutionStartReservation}
  {contextPublished : Option (Except Raised Unit)} {result : ExecutionStartReservationResult}
  {claim : ExecutionStartClaim} {record : ExecutionRecord}

theorem reserveStart_effect (done : reserveStart store reservation contextPublished =
      .ok (result, after)) : (result.created = false ∧ after = store ∧
      ∃ row winner, store.idempotencyAt reservation.idempotency.identityKey = some row ∧
        store.executions row.value.resourceId = some winner ∧
        row.value.requestDigest = reservation.idempotency.requestDigest ∧
        result = ⟨winner.value, row.value, false⟩) ∨
    (result = ⟨reservation.execution, reservation.idempotency, true⟩ ∧
      store.idempotencyAt reservation.idempotency.identityKey = none ∧
      reservation.idempotency.resourceKind = executionKind ∧
      after.idempotency = store.idempotency ++ [⟨reservation.idempotency, 0⟩] ∧
      after.executions reservation.execution.executionId = some ⟨reservation.execution, 0⟩ ∧
      StartEffect (some reservation.execution.executionId) store after) := by
  obtain ⟨kind, replayed | created⟩ := reserveStart_ok done
  case inl =>
    obtain ⟨row, winner, found, same, stored, rfl, rfl⟩ := replayed
    exact .inl ⟨rfl, rfl, row, winner, found, stored, same.2.2.1, rfl⟩
  case inr =>
    obtain ⟨guarded, admitted, middle, absent, guards, ⟨executions, _, idempotency, _⟩, inserted,
      reserved, answer⟩ := created
    have effect : StartEffect (some reservation.execution.executionId) store after :=
      ((guards.startEffect.trans (.of_eq executions idempotency)).trans
        (insertExecution_startEffect inserted)).trans (insertIdempotency_startEffect reserved)
    obtain ⟨_, rfl⟩ := insertIdempotency_ok reserved
    obtain ⟨_, rfl⟩ := insertExecution_ok inserted
    refine .inr ⟨answer, absent, kind, ?_, Function.update_self _ _ _, effect⟩
    exact congrArg (· ++ _) (idempotency.trans guards.idempotency)

/-- A claim needs an identity that is not used or only reserved, and leaves it started. -/
theorem claimStart_effect (done : claimStart store claim = .ok (record, after)) :
    StartEffect none store after ∧
    (∀ row, store.idempotencyAt (claim.scope, claim.idempotencyKeyDigest) = some row →
      row.value.status = .reserved) ∧
    (∃ row, after.idempotencyAt (claim.scope, claim.idempotencyKeyDigest) = some row ∧
      row.value.status = .started) ∧ (∀ row ∈ after.idempotency, row ∈ store.idempotency ∨
      row.value.resourceKind = executionKind ∧
        ∃ winner, after.executions row.value.resourceId = some winner ∧
          winner.value.executionId = row.value.resourceId) := by
  obtain ⟨row, middle, replaced, found, named, _, _, fields, started, replaces, inserted⟩ :=
    claimStart_ok done
  have facts := insertFacts_ok inserted
  have executionId : record.executionId = claim.executionId := by rw [fields]; exact named
  obtain ⟨frame, written⟩ := startIdempotency_ok started
  have executions : middle.executions = store.executions := by rw [frame]
  have replacing : StartEffect none middle after := by
    refine (replaceChecked_startEffect replaces ?_).trans (.of_eq (by rw [facts]) (by rw [facts]))
    intro current stored
    rw [executions, executionId] at stored
    cases found.symm.trans stored
    exact named.trans executionId.symm
  have rows : after.idempotency = middle.idempotency := by
    obtain ⟨_, _, _, _, _, put⟩ := replaceChecked_ok replaces
    rw [facts, put]
    rfl
  have winner : ∃ winner, after.executions claim.executionId = some winner ∧
      winner.value.executionId = claim.executionId := by
    obtain ⟨later, stored, same⟩ :=
      replacing.executions claim.executionId row ((congrFun executions _).trans found)
    exact ⟨later, stored, same.trans named⟩
  have lookup : ∀ identity, after.idempotencyAt identity = middle.idempotencyAt identity := by
    intro identity
    unfold idempotencyAt
    rw [rows]
  cases written with
  | inl appended =>
    obtain ⟨absent, appended⟩ := appended
    have starting : StartEffect none store middle := by
      unfold startIdempotency at started
      rw [absent] at started
      exact insertIdempotency_startEffect started
    refine ⟨starting.trans replacing, ?_, ?_, ?_⟩
    · intro row present
      cases absent.symm.trans present
    · rw [lookup, idempotencyAt_append appended, absent]
      exact ⟨_, rowAt_of_mem (by simp) (List.mem_singleton_self _), rfl⟩
    · intro identity member
      rw [rows, appended] at member
      cases List.mem_append.mp member with
      | inl old => exact .inl old
      | inr new =>
        cases List.mem_singleton.mp new
        exact .inr ⟨rfl, winner⟩
  | inr rewritten =>
    obtain ⟨stored, found, _, kind, resource, reserved, rewritten⟩ := rewritten
    have key : idempotencyKey stored = (claim.scope, claim.idempotencyKeyDigest) := rowAt_key found
    have present : store.idempotencyAt (idempotencyKey stored) = some stored := by
      rw [key]
      exact found
    have starting : StartEffect none store middle := by
      refine rewriteIdempotency_startEffect present reserved ?_ ?_ ?_ frame rewritten <;> rfl
    refine ⟨starting.trans replacing, ?_, ?_, ?_⟩
    · intro row present
      cases found.symm.trans present
      exact reserved
    · refine ⟨⟨{ stored.value with status := .started, updatedAt := claim.startedAt },
        stored.storageRevision + 1⟩, (lookup _).trans ?_, rfl⟩
      unfold idempotencyAt at found ⊢
      rw [rewritten]
      change rowAt idempotencyKey (rewriteAt idempotencyKey _ (idempotencyKey stored) _) _ = _
      rw [key]
      exact rowAt_rewriteAt_self _ key (rowAt_isSome_iff.mp ⟨_, found⟩)
    · intro identity member
      rw [rows, rewritten] at member
      cases mem_rewriteAt member with
      | inl new =>
        subst new
        exact .inr ⟨kind, resource ▸ winner⟩
      | inr old => exact .inl old.1

end ExecutionRepository

section Steps

variable {first last : ExecutionStore} {label : StartLabel} {identity : String × String}
  {reservation : ExecutionStartReservation} {contextPublished : Option (Except Raised Unit)}

theorem startMachine_cases (step : startMachine.step first label last) :
    (∃ raised, label.outcome = .error raised ∧ label.call.run first = .error raised ∧
      last = first) ∨
    ∃ answer, label.outcome = .ok answer ∧ label.call.run first = .ok (answer, last) := by
  obtain ⟨_, taken⟩ := step
  split at taken
  case h_1 answer after done =>
    obtain ⟨outcome, rfl⟩ := taken
    exact .inr ⟨answer, outcome, done⟩
  case h_2 raised failed =>
    obtain ⟨outcome, rfl⟩ := taken
    exact .inl ⟨raised, outcome, failed, rfl⟩

def StartLabel.created (label : StartLabel) : Option String :=
  match label.call, label.outcome with
  | .reserve reservation _, .ok (.reserved result) =>
    if result.created = true then some reservation.execution.executionId else none
  | _, _ => none

theorem startMachine_effect (step : startMachine.step first label last) :
    StartEffect label.created first last := by
  cases startMachine_cases step with
  | inl raises =>
    obtain ⟨_, _, _, rfl⟩ := raises
    exact .refl
  | inr commits =>
    obtain ⟨answer, outcome, done⟩ := commits
    unfold StartLabel.created
    cases given : label.call with
    | reserve =>
      rw [given] at done
      simp only [StartCall.run, map_eq_ok, Prod.exists, Prod.mk.injEq] at done
      obtain ⟨result, _, reserved, rfl, rfl⟩ := done
      rw [outcome]
      cases reserveStart_effect reserved with
      | inl replayed =>
        obtain ⟨_, rfl, _⟩ := replayed
        exact .refl
      | inr created =>
        obtain ⟨rfl, _, _, _, _, effect⟩ := created
        exact effect
    | claim request =>
      rw [given] at done
      simp only [StartCall.run, map_eq_ok, Prod.exists, Prod.mk.injEq] at done
      obtain ⟨_, _, claimed, rfl, rfl⟩ := done
      exact (claimStart_effect claimed).1

theorem startMachine_indexed (step : startMachine.step first label last)
    (indexed : Indexed first) : Indexed last := by
  have effect := startMachine_effect step
  cases startMachine_cases step with
  | inl raises =>
    obtain ⟨_, _, _, rfl⟩ := raises
    exact indexed
  | inr commits =>
    obtain ⟨answer, _, done⟩ := commits
    obtain ⟨wellFormed, _⟩ := step
    refine effect.indexed indexed fun row member => ?_
    cases given : label.call with
    | reserve reservation contextPublished =>
      rw [given] at done wellFormed
      simp only [StartCall.run, map_eq_ok, Prod.exists, Prod.mk.injEq] at done
      obtain ⟨result, _, reserved, _, rfl⟩ := done
      cases reserveStart_effect reserved with
      | inl replayed =>
        obtain ⟨_, rfl, _⟩ := replayed
        exact .inl member
      | inr created =>
        obtain ⟨_, _, kind, rows, winner, _⟩ := created
        rw [rows] at member
        cases List.mem_append.mp member with
        | inl old => exact .inl old
        | inr new =>
          cases List.mem_singleton.mp new
          have named := wellFormed.2.1
          exact .inr ⟨kind, ⟨reservation.execution, 0⟩, named ▸ winner, named.symm⟩
    | claim request =>
      rw [given] at done
      simp only [StartCall.run, map_eq_ok, Prod.exists, Prod.mk.injEq] at done
      obtain ⟨_, _, claimed, _, rfl⟩ := done
      exact (claimStart_effect claimed).2.2.2 row member

theorem reserveStart_replays (indexed : Indexed first)
    (wellFormed : (StartCall.reserve reservation contextPublished).WellFormed)
    (found : first.idempotencyAt reservation.idempotency.identityKey = some row)
    (same : row.value.requestDigest = reservation.idempotency.requestDigest) :
    ∃ winner, first.executions row.value.resourceId = some winner ∧
      reserveStart first reservation contextPublished =
        .ok (⟨winner.value, row.value, false⟩, first) := by
  obtain ⟨kind, _, budget⟩ := wellFormed
  obtain ⟨known, winner, stored, named⟩ := indexed row (rowAt_mem found)
  have key : idempotencyKey row = reservation.idempotency.identityKey := rowAt_key found
  have identical : row.value.SameIdentity reservation.idempotency :=
    ⟨congrArg Prod.fst key, congrArg Prod.snd key, same, known.trans kind.symm⟩
  have loaded : first.loadExecution row.value.resourceId .integrity = .ok winner :=
    loadExecution_eq_ok.mpr ⟨stored, named⟩
  refine ⟨winner, stored, ?_⟩
  unfold reserveStart
  rw [refuse_of_not (not_not.mpr kind), ok_bind,
    refuse_of_not (fun malformed => malformed.2 (budget malformed.1)), ok_bind, found]
  simp only [refuse_of_not (not_not.mpr identical), ok_bind, loaded]
  rfl

theorem startMachine_answers (indexed : Indexed first) (step : startMachine.step first label last)
    (given : label.call = .reserve reservation contextPublished) :
    AnswersReservation first reservation label.outcome last := by
  have wellFormed := step.1
  rw [given] at wellFormed
  unfold AnswersReservation
  cases startMachine_cases step with
  | inl raises =>
    obtain ⟨raised, outcome, failed, rfl⟩ := raises
    rw [given] at failed
    split
    case h_1 => exact .inr ⟨raised, outcome, rfl⟩
    case h_2 row found =>
      refine ⟨rfl, ?_⟩
      split
      case isTrue same =>
        obtain ⟨_, _, done⟩ := reserveStart_replays indexed wellFormed found same
        rw [StartCall.run, done] at failed
        cases failed
      case isFalse => exact ⟨raised, outcome⟩
  | inr commits =>
    obtain ⟨answer, outcome, done⟩ := commits
    rw [given] at done
    simp only [StartCall.run, map_eq_ok, Prod.exists, Prod.mk.injEq] at done
    obtain ⟨result, _, reserved, rfl, rfl⟩ := done
    cases reserveStart_effect reserved with
    | inl replayed =>
      obtain ⟨_, rfl, row, winner, found, stored, same, rfl⟩ := replayed
      rw [found]
      refine ⟨rfl, ?_⟩
      rw [if_pos same]
      exact ⟨winner, stored, outcome⟩
    | inr created =>
      obtain ⟨rfl, absent, _, rows, stored, _⟩ := created
      rw [absent]
      refine .inl ⟨outcome, ?_, stored⟩
      rw [idempotencyAt_append rows, absent]
      exact rowAt_of_mem (by simp) (List.mem_singleton_self _)

end Steps

section Runs

variable {first last : ExecutionStore} {label : StartLabel} {labels : List StartLabel}
  {identity : String × String}

def Used (identity : String × String) (store : ExecutionStore) : Prop :=
  ∃ row, store.idempotencyAt identity = some row

/-- An identity is spent once its record is no longer only reserved. -/
def Spent (identity : String × String) (store : ExecutionStore) : Prop :=
  ∃ row, store.idempotencyAt identity = some row ∧ row.value.status ≠ .reserved

section

variable (step : startMachine.step first label last)
include step

theorem used_of_step (used : Used identity first) : Used identity last := by
  obtain ⟨row, found⟩ := used
  obtain ⟨later, stored, _⟩ := (startMachine_effect step).rows identity row found
  exact ⟨later, stored⟩

theorem spent_of_step (spent : Spent identity first) : Spent identity last := by
  obtain ⟨row, found, started⟩ := spent
  obtain ⟨later, stored, _, _, settled⟩ := (startMachine_effect step).rows identity row found
  exact ⟨later, stored, settled started ▸ started⟩

theorem unused_of_creates
    (creates : label.creates identity = true) : ¬Used identity first ∧ Used identity last := by
  unfold StartLabel.creates at creates
  split at creates
  case h_1 reservation contextPublished result given reserved =>
    simp only [Bool.and_eq_true, decide_eq_true_eq] at creates
    obtain ⟨created, rfl⟩ := creates
    cases startMachine_cases step with
    | inl raises =>
      obtain ⟨_, outcome, _⟩ := raises
      cases outcome.symm.trans reserved
    | inr commits =>
      obtain ⟨answer, outcome, done⟩ := commits
      cases outcome.symm.trans reserved
      rw [given] at done
      simp only [StartCall.run, map_eq_ok, Prod.exists, Prod.mk.injEq,
        StartAnswer.reserved.injEq] at done
      obtain ⟨_, _, effected, rfl, rfl⟩ := done
      cases reserveStart_effect effected with
      | inl replayed => cases replayed.1.symm.trans created
      | inr fresh =>
        obtain ⟨_, absent, _, rows, _, _⟩ := fresh
        refine ⟨?_, ⟨⟨reservation.idempotency, 0⟩, ?_⟩⟩
        · rintro ⟨row, found⟩
          cases absent.symm.trans found
        · rw [idempotencyAt_append rows, absent]
          exact rowAt_of_mem (by simp) (List.mem_singleton_self _)
  case h_2 => cases creates

theorem unspent_of_claims
    (claims : label.claims identity = true) : ¬Spent identity first ∧ Spent identity last := by
  unfold StartLabel.claims at claims
  split at claims
  case h_1 request execution given claimed =>
    have same := of_decide_eq_true claims
    subst same
    cases startMachine_cases step with
    | inl raises =>
      obtain ⟨_, outcome, _⟩ := raises
      cases outcome.symm.trans claimed
    | inr commits =>
      obtain ⟨answer, _, done⟩ := commits
      rw [given] at done
      simp only [StartCall.run, map_eq_ok, Prod.exists, Prod.mk.injEq] at done
      obtain ⟨_, _, effected, _, rfl⟩ := done
      obtain ⟨_, reserved, ⟨row, found, started⟩, _⟩ := claimStart_effect effected
      refine ⟨?_, ⟨row, found, by rw [started]; decide⟩⟩
      rintro ⟨row, found, spent⟩
      exact spent (reserved row found)
  case h_2 => cases claims

end

/-- What an identity keeps along a run: its execution and its request. -/
def SameWinner (first last : ExecutionStore) : Prop :=
  ∀ identity row, first.idempotencyAt identity = some row →
    ∃ later, last.idempotencyAt identity = some later ∧
      later.value.requestDigest = row.value.requestDigest ∧
      later.value.resourceId = row.value.resourceId

theorem sameWinner_of_run (indexed : Indexed first)
    (run : Machine.Run startMachine first labels last) : SameWinner first last := by
  apply run.relates ?_ ?_ ?_ (.of_initial indexed)
  · exact fun _ _ row found => ⟨row, found, rfl, rfl⟩
  · intro first middle last left right identity row found
    obtain ⟨between, kept, digest, resource⟩ := left identity row found
    obtain ⟨later, stored, further, still⟩ := right identity between kept
    exact ⟨later, stored, further.trans digest, still.trans resource⟩
  · intro first label last _ step identity row found
    obtain ⟨later, stored, digest, resource, _⟩ := (startMachine_effect step).rows identity
      row found
    exact ⟨later, stored, digest, resource⟩

theorem indexed_of_run (indexed : Indexed first)
    (run : Machine.Run startMachine first labels last) : Indexed last :=
  run.preserves (fun _ _ _ _ indexed step => startMachine_indexed step indexed)
    (.of_initial indexed) indexed

theorem created_of_run (run : Machine.Run startMachine first labels last) (executionId : String)
    (present : last.executions executionId ≠ none) : first.executions executionId ≠ none ∨
      ∃ label ∈ labels, label.created = some executionId := by
  induction run with
  | nil => exact .inl present
  | @cons first middle last label labels step rest ih =>
    cases ih present with
    | inl before =>
      refine ((startMachine_effect step).fresh executionId before).imp_right fun created => ?_
      exact ⟨label, List.mem_cons_self, created⟩
    | inr later =>
      obtain ⟨other, member, created⟩ := later
      exact .inr ⟨other, List.mem_cons_of_mem _ member, created⟩

/-- A retry of a reservation that has created its execution answers with that execution, and
a reservation of another request under its identity raises. -/
theorem retry_answers (indexed : Indexed first) (run : Machine.Run startMachine first labels last)
    (split : labels = before ++ label :: (between ++ retry :: after))
    (given : label.call = .reserve reservation published)
    (creates : label.creates reservation.idempotency.identityKey = true)
    (again : retry.call = .reserve retried republished)
    (same : retried.idempotency.identityKey = reservation.idempotency.identityKey) :
    if reservation.idempotency.requestDigest = retried.idempotency.requestDigest then
      ∃ winner row, retry.outcome = .ok (.reserved ⟨winner, row, false⟩) ∧
        winner.executionId = reservation.execution.executionId
    else ∃ raised, retry.outcome = .error raised := by
  subst split
  obtain ⟨state, earlier, rest⟩ := run.of_append
  obtain ⟨next, step, later⟩ := rest.of_cons
  obtain ⟨reached, middle, last⟩ := later.of_append
  obtain ⟨_, step', _⟩ := last.of_cons
  have known := indexed_of_run indexed earlier
  have knownNext := startMachine_indexed step known
  have unused := (unused_of_creates step creates).1
  have answers := startMachine_answers known step given
  unfold AnswersReservation at answers
  split at answers
  case h_2 row found => exact absurd ⟨row, found⟩ unused
  case h_1 =>
    cases answers with
    | inr raises =>
      obtain ⟨_, outcome, _⟩ := raises
      rw [StartLabel.creates, given, outcome] at creates
      cases creates
    | inl created =>
      obtain ⟨_, written, _⟩ := created
      obtain ⟨row, found, digest, resource⟩ := sameWinner_of_run knownNext middle _ _ written
      have knownReached := indexed_of_run knownNext middle
      have replays := startMachine_answers knownReached step' again
      unfold AnswersReservation at replays
      rw [same, found] at replays
      rw [← digest]
      obtain ⟨_, replays⟩ := replays
      split
      case isTrue equal =>
        rw [if_pos equal] at replays
        obtain ⟨winner, stored, outcome⟩ := replays
        refine ⟨winner.value, row.value, outcome, ?_⟩
        obtain ⟨_, other, present, named⟩ := knownReached row (rowAt_mem found)
        cases present.symm.trans stored
        have wellFormed := step.1
        rw [given] at wellFormed
        exact named.trans (resource.trans wellFormed.2.1)
      case isFalse different =>
        rw [if_neg different] at replays
        exact replays

/-- Calls in any order create at most one execution and start at most one under an
identity; every new execution is created by one of the calls; a retry answers with the
execution of its identity; and every reservation answers by the record of its identity,
which keeps its execution and its request. -/
theorem starts_happen_once (indexed : Indexed first)
    (run : Machine.Run startMachine first labels last) :
    (∀ identity, labels.countP (StartLabel.creates identity) ≤ 1 ∧
      labels.countP (StartLabel.claims identity) ≤ 1) ∧
    (∀ executionId, last.executions executionId ≠ none → first.executions executionId ≠ none ∨
      ∃ label ∈ labels, label.created = some executionId) ∧
    (∀ before label between retry after reservation retried published republished,
      labels = before ++ label :: (between ++ retry :: after) →
      label.call = .reserve reservation published →
      label.creates reservation.idempotency.identityKey = true →
      retry.call = .reserve retried republished →
      retried.idempotency.identityKey = reservation.idempotency.identityKey →
      if reservation.idempotency.requestDigest = retried.idempotency.requestDigest then
        ∃ winner row, retry.outcome = .ok (.reserved ⟨winner, row, false⟩) ∧
          winner.executionId = reservation.execution.executionId
      else ∃ raised, retry.outcome = .error raised) ∧
    ∀ before label after, labels = before ++ label :: after →
      ∃ state next, Machine.Run startMachine first before state ∧
        startMachine.step state label next ∧ Machine.Run startMachine next after last ∧
        SameWinner next last ∧ ∀ reservation contextPublished,
          label.call = .reserve reservation contextPublished →
          AnswersReservation state reservation label.outcome next := by
  refine ⟨fun identity => ⟨?_, ?_⟩, created_of_run run,
    fun _ _ _ _ _ _ _ _ _ => retry_answers indexed run, ?_⟩
  · exact run.countP_le_one (fun _ _ _ => used_of_step)
      (fun _ _ _ step fired => (unused_of_creates step fired).1)
      (fun _ _ _ step fired => (unused_of_creates step fired).2)
  · exact run.countP_le_one (fun _ _ _ => spent_of_step)
      (fun _ _ _ step fired => (unspent_of_claims step fired).1)
      (fun _ _ _ step fired => (unspent_of_claims step fired).2)
  · rintro before label after rfl
    obtain ⟨state, earlier, rest⟩ := run.of_append
    obtain ⟨next, step, later⟩ := rest.of_cons
    have known := indexed_of_run indexed earlier
    exact ⟨state, next, earlier, step, later,
      sameWinner_of_run (startMachine_indexed step known) later,
      fun _ _ given => startMachine_answers known step given⟩

end Runs

namespace StartCall

def label (store : ExecutionStore) (call : StartCall) : StartLabel :=
  ⟨call, Prod.fst <$> call.run store⟩

def next (store : ExecutionStore) (call : StartCall) : ExecutionStore :=
  match call.run store with
  | .ok (_, after) => after
  | .error _ => store

theorem step_label {store : ExecutionStore} {call : StartCall} (wellFormed : call.WellFormed) :
    startMachine.step store (call.label store) (call.next store) := by
  refine ⟨wellFormed, ?_⟩
  unfold next label
  cases call.run store with
  | ok done => exact ⟨rfl, rfl⟩
  | error raised => exact ⟨rfl, rfl⟩

end StartCall

def sampleStart (executionId requestDigest : String) : StartCall :=
  .reserve ⟨⟨{ sampleExecution.toExecutionFields with
      executionId
      rootExecutionId := executionId }, rfl⟩,
    ⟨"s", "k", requestDigest, executionKind, executionId, .reserved, none, none, 0, 0⟩,
    none, none⟩ none

theorem sampleStart_wellFormed (executionId requestDigest : String) :
    (sampleStart executionId requestDigest).WellFormed :=
  ⟨rfl, rfl, fun budget => absurd rfl budget⟩

def sampleClaim : StartCall :=
  .claim ⟨"e", 0, 0, "s", "k", "d", 1⟩

def sampleReservedStore : ExecutionStore :=
  (sampleStart "e" "d").next {}

def sampleClaimedStore : ExecutionStore :=
  sampleClaim.next sampleReservedStore

/-- A reservation, a claim, a retry with a fresh execution and another request. -/
def sampleStartLabels : List StartLabel :=
  [(sampleStart "e" "d").label {}, sampleClaim.label sampleReservedStore,
    (sampleStart "f" "d").label sampleClaimedStore,
    (sampleStart "f" "x").label ((sampleStart "f" "d").next sampleClaimedStore)]

theorem sampleStartLabels_run : Machine.Run startMachine {} sampleStartLabels
    ((sampleStart "f" "x").next ((sampleStart "f" "d").next sampleClaimedStore)) :=
  .cons (StartCall.step_label (sampleStart_wellFormed "e" "d"))
    (.cons (StartCall.step_label trivial)
      (.cons (StartCall.step_label (sampleStart_wellFormed "f" "d"))
        (.single (StartCall.step_label (sampleStart_wellFormed "f" "x")))))

theorem sample_starts_happen_once :
    sampleStartLabels.map (fun label => label.outcome.isOk) = [true, true, true, false] ∧
    sampleStartLabels.countP (StartLabel.creates ("s", "k")) = 1 ∧
    sampleStartLabels.countP (StartLabel.claims ("s", "k")) ≤ 1 := by
  have indexed : Indexed {} := by
    rintro _ ⟨⟩
  exact ⟨by decide +kernel, by decide +kernel,
    ((starts_happen_once indexed sampleStartLabels_run).1 ("s", "k")).2⟩

end Linktools.Execution
