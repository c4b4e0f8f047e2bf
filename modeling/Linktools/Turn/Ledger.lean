import Linktools.Turn.Admissions

namespace Linktools.Turn

open Linktools.Core Library List
open State (Failure)

variable {store middle next : TurnStore} {graph : TurnGraph} {clock : Time}
  {claim : TurnClaim} {token : String} {instants : TurnInstants} {duration : Int}
  {own request : Option TurnGraph}

variable {put : TurnGraph} {name : TurnName}

section

variable (puts : Puts store next put)
include puts

theorem Puts.session_at
    (named : put.session.name = name) : next.sessions.lookup name = some put.session := by
  rw [puts.sessions, if_pos named.symm]

theorem Puts.request_at
    (named : put.request.name = name) : next.requests.lookup name = some put.request := by
  rw [puts.requests, if_pos named.symm]

theorem Puts.execution_at
    (named : put.execution.name = name) : next.executions.lookup name = some put.execution := by
  rw [puts.executions, if_pos named.symm]

theorem Puts.execution_ne (apart : name ≠ put.execution.name) :
    next.executions.lookup name = store.executions.lookup name := by
  rw [puts.executions, if_neg apart]

end

theorem Stands.guarded (stands : Stands store graph) (same : SameTurns store next)
    (session : next.sessions.lookup graph.session.name = some graph.session.bumped) :
    Stands next { graph with session := graph.session.bumped } :=
  ⟨(same.executions _).trans stands.execution, (same.requests _).trans stands.request, session,
    stands.executionActive, stands.requestActive, stands.sessionActive, stands.bound, stands.runs⟩

theorem claimFirst_ends (sound : TurnsSound store) (formed : claim.Formed) (drawn : token ≠ "")
    (session : store.sessions.lookup claim.session = none)
    (request : store.requests.lookup claim.request = none)
    (execution : store.executions.lookup claim.execution = none) (duration : Int) :
    ClaimEnds store claim token instants
      (store.claimFirst claim token duration instants.change) := by
  have free : claim.Free store := by
    refine ⟨fun row found => ?_, fun row found => ?_, fun row found => ?_⟩
    · rw [session] at found
      cases found
    · rw [request] at found
      cases found
    · rw [execution] at found
      cases found
  have unfenced : store.fence claim.session = 0 := by
    rw [TurnStore.fence, session]
  have inserted := @insertSession_eq store
    (claim.sessionRow .active (some claim.executionId) (some claim.requestKey)) session
  have executed := @insertExecution_eq { store with
    sessions := store.sessions.insert claim.session
      (claim.sessionRow .active (some claim.executionId) (some claim.requestKey)) }
    (claim.executionRow token 1 0) execution
  have requested := @insertRequest_eq { store with
    sessions := store.sessions.insert claim.session
      (claim.sessionRow .active (some claim.executionId) (some claim.requestKey))
    executions := store.executions.insert claim.execution (claim.executionRow token 1 0) }
    (claim.requestRow 0) request
  rcases @acquire_cases { store with
      sessions := store.sessions.insert claim.session
        (claim.sessionRow .active (some claim.executionId) (some claim.requestKey))
      executions := store.executions.insert claim.execution (claim.executionRow token 1 0)
      requests := store.requests.insert claim.request (claim.requestRow 0) }
    instants.change token duration
    (claim.sessionRow .active (some claim.executionId) (some claim.requestKey))
    (AList.lookup_insert _) rfl with overflows | acquired
  · have failed : store.claimFirst claim token duration instants.change = .error .overflowError :=
      bind_eq_error.mpr (.inr ⟨_, inserted, bind_eq_error.mpr (.inr ⟨_, executed,
        bind_eq_error.mpr (.inr ⟨_, requested, bind_eq_error.mpr (.inl overflows)⟩)⟩)⟩)
    rw [failed]
    exact .denied (.inr (.inr (.inr rfl)))
  · have fitting := formed.fitting free sound drawn (le_refl 1) (instants.change + duration) 0 0 1
    have standing := turnGraph_eq fitting.execution fitting.request fitting.session rfl rfl rfl
      fitting.bound ⟨rfl, rfl, rfl, rfl, rfl, rfl⟩
    have answered : store.claimFirst claim token duration instants.change = .ok (some
        ((claim.granted token 1 (instants.change + duration) 0 0 1).coordination true), _) :=
      bind_eq_ok.mpr ⟨_, inserted, bind_eq_ok.mpr ⟨_, executed, bind_eq_ok.mpr ⟨_, requested,
        bind_eq_ok.mpr ⟨_, acquired, bind_eq_ok.mpr ⟨_, standing, rfl⟩⟩⟩⟩⟩
    rw [answered]
    refine .granted .refl formed free (by rw [unfenced]) ⟨fun other => ?_,
      fun _ => insert_lookup, fun _ => insert_lookup⟩
    change ((store.sessions.insert claim.session _).insert claim.session _).lookup other =
      if other = claim.session then _ else _
    rw [insert_lookup]
    split
    case isTrue => rfl
    case isFalse elsewhere => rw [AList.lookup_insert_ne elsewhere]

structure TurnClaim.Passed (claim : TurnClaim) (store next : TurnStore)
    (own request : Option TurnGraph) : Prop where
  same : SameTurns store next
  own : ∀ graph ∈ own, Stands next { graph with session := graph.session.bumped }
  other : ∀ graph ∈ claim.elsewhere request,
    Stands next { graph with session := graph.session.bumped }
  session : next.sessions.lookup claim.session =
    (store.sessions.lookup claim.session).map (·.bumped)

/-- Both guards take hold, unless a lease runs out between the look at it and its guard. -/
theorem guards_cases (meets : claim.Meets store own request) (sound : TurnsSound store)
    (ordered : instants.Ordered clock) :
    store.guardSome (store.sessions.lookup claim.session) instants.ownLook instants.ownGuard =
        .error .conflict ∨
      ∃ middle, store.guardSome (store.sessions.lookup claim.session) instants.ownLook
          instants.ownGuard =
          .ok (guardOf (store.sessions.lookup claim.session) instants.ownLook, middle) ∧
        (middle.guardSome ((claim.elsewhere request).map (·.session)) instants.otherLook
            instants.otherGuard = .error .conflict ∨
          ∃ next, middle.guardSome ((claim.elsewhere request).map (·.session))
              instants.otherLook instants.otherGuard =
              .ok (guardOf ((claim.elsewhere request).map (·.session)) instants.otherLook, next) ∧
            claim.Passed store next own request) := by
  have ownStored : ∀ row ∈ store.sessions.lookup claim.session,
      store.sessions.lookup row.name = some row ∧ row.Fits := by
    intro row found
    obtain ⟨named, valid⟩ := sound.sessionRows _ row found
    exact ⟨named ▸ found, (TurnSession.validate_ok.mp valid).2.2.2.2⟩
  rcases guardSome_cases ownStored ordered.own.2.1 with
    conflicts | ⟨middle, guarded, same, own', keeps⟩
  · exact .inl conflicts
  refine .inr ⟨middle, guarded, ?_⟩
  have apart : ∀ graph ∈ claim.elsewhere request,
      middle.sessions.lookup graph.session.name = some graph.session := by
    intro graph member
    obtain ⟨_, stands, apart, _⟩ := meets.elsewhere sound member
    rw [keeps _ fun row found same => apart (same.trans (sound.sessionRows _ row found).1)]
    exact stands.session
  have otherStored : ∀ row ∈ (claim.elsewhere request).map (·.session),
      middle.sessions.lookup row.name = some row ∧ row.Fits := by
    intro row found
    obtain ⟨graph, member, rfl⟩ := Option.mem_map.mp found
    obtain ⟨_, stands, _, _⟩ := meets.elsewhere sound member
    have valid := (sound.sessionRows _ _ stands.session).2
    exact ⟨apart graph member, (TurnSession.validate_ok.mp valid).2.2.2.2⟩
  rcases guardSome_cases otherStored ordered.other.2.1 with
    conflicts | ⟨next, guarded', same', other', keeps'⟩
  · exact .inl conflicts
  refine .inr ⟨next, guarded', same.trans same', fun graph member => ?_, fun graph member => ?_, ?_⟩
  · obtain ⟨stands, stored⟩ := meets.own graph member
    refine stands.guarded (same.trans same') ?_
    have bumped := own' graph.session stored
    rw [keeps' _ fun row found same => ?_, bumped]
    obtain ⟨other, elsewhere, rfl⟩ := Option.mem_map.mp found
    exact (meets.elsewhere sound elsewhere).2.2.1 (same.symm.trans (sound.sessionRows _ _ stored).1)
  · obtain ⟨_, stands, _, _⟩ := meets.elsewhere sound member
    exact stands.guarded (same.trans same') (other' _ (Option.mem_map.mpr ⟨graph, member, rfl⟩))
  · have here : next.sessions.lookup claim.session = middle.sessions.lookup claim.session := by
      refine keeps' _ fun row found same => ?_
      obtain ⟨other, elsewhere, rfl⟩ := Option.mem_map.mp found
      exact (meets.elsewhere sound elsewhere).2.2.1 same.symm
    rw [here]
    cases stored : store.sessions.lookup claim.session with
    | none => exact (keeps _ fun row found => nomatch stored.symm.trans found).trans stored
    | some row =>
      have named : row.name = claim.session := (sound.sessionRows _ row stored).1
      have bumped := own' row stored
      rwa [named] at bumped

structure TurnClaim.Cleared (claim : TurnClaim) (store next : TurnStore)
    (own : Option TurnGraph) : Prop where
  session : next.sessions.lookup claim.session =
    match own with
    | none => store.sessions.lookup claim.session
    | some graph => some { graph with session := graph.session.bumped }.retiredSession
  request : ∀ row ∈ next.requests.lookup claim.request, row.state = .retired

/-- Turns that are no longer live retire from the way of a claim. -/
theorem retirements_eq (meets : claim.Meets store own request) (sound : TurnsSound store)
    (ordered : instants.Ordered clock) (passed : claim.Passed store middle own request)
    (received : token ≠ "")
    (ownQuiet : ∀ guard ∈ guardOf (store.sessions.lookup claim.session) instants.ownLook,
      guard.live = false)
    (otherQuiet : ∀ guard ∈ guardOf ((claim.elsewhere request).map (·.session))
      instants.otherLook, guard.live = false) : ∃ between next, middle.retireExpired own
          (guardOf (store.sessions.lookup claim.session) instants.ownLook) token = .ok between ∧
      between.retireExpired (claim.elsewhere request)
          (guardOf ((claim.elsewhere request).map (·.session)) instants.otherLook) token =
        .ok next ∧ Expires instants.change token middle next ∧ claim.Cleared middle next own := by
  have soundMiddle : TurnsSound middle := passed.same.sound sound
  obtain ⟨between, retired, expires, untouched, puts⟩ := @retireExpired_eq middle instants.change
    token soundMiddle received _ own passed.own
    (fun graph member => ⟨instants.ownLook, ordered.own.2.1.trans ordered.own.2.2, by
      rw [Option.mem_def.mp (meets.own graph member).2]⟩) ownQuiet
  have soundBetween : TurnsSound between := expires.sound received soundMiddle
  have otherStands : ∀ graph ∈ claim.elsewhere request,
      Stands between { graph with session := graph.session.bumped } := by
    intro graph member
    cases present : own with
    | none =>
      rw [untouched present]
      exact passed.other graph member
    | some mine =>
      have standing := passed.own mine present
      refine (standing.retired_fitting soundMiddle received (.inr rfl)).keeps
        (puts mine present) (passed.other graph member) (.inl fun same => ?_)
      obtain ⟨_, stored⟩ := meets.own mine present
      have named : mine.session.name = claim.session := (sound.sessionRows _ _ stored).1
      exact (meets.elsewhere sound member).2.2.1 (same.trans named)
  obtain ⟨next, retired', expires', untouched', puts'⟩ := @retireExpired_eq between
    instants.change token soundBetween received _ (claim.elsewhere request) otherStands
    (fun graph member => ⟨instants.otherLook, ordered.other.2.1.trans ordered.other.2.2, by
      rw [Option.mem_def.mp member]
      rfl⟩) otherQuiet
  refine ⟨between, next, retired, retired', expires.trans expires', ?_, ?_⟩
  · have kept : next.sessions.lookup claim.session = between.sessions.lookup claim.session := by
      cases present : claim.elsewhere request with
      | none => rw [untouched' present]
      | some other =>
        rw [(puts' other present).sessions, if_neg fun same => ?_]
        exact (meets.elsewhere sound present).2.2.1 same.symm
    rw [kept]
    cases present : own with
    | none => rw [untouched present]
    | some mine =>
      obtain ⟨_, stored⟩ := meets.own mine present
      have named : mine.session.name = claim.session := (sound.sessionRows _ _ stored).1
      exact (puts mine present).session_at named
  · cases present : request with
    | none =>
      refine expires'.request_retired (expires.request_retired ?_)
      rw [passed.same.requests]
      exact meets.requestRetired present
    | some graph =>
      obtain ⟨stands, stored⟩ := meets.request graph present
      have named : graph.request.name = claim.request := (sound.requestRows _ _ stored).1
      by_cases here : graph.session.sessionKey = claim.sessionKey
      case pos =>
        obtain ⟨mine, _⟩ := meets.here sound present here
        refine expires'.request_retired fun row found => ?_
        rw [(puts graph mine).request_at named] at found
        cases found
        rfl
      case neg =>
        have elsewhere : graph ∈ claim.elsewhere request := by
          rw [TurnClaim.elsewhere, present, Option.filter_some, if_pos (decide_eq_true here)]
          rfl
        intro row found
        rw [(puts' graph elsewhere).request_at named] at found
        cases found
        rfl

theorem idleSession_eq (meets : claim.Meets store own request) (sound : TurnsSound store)
    (passed : claim.Passed store middle own request) (cleared : claim.Cleared middle next own)
    (look : Time) :
    ∃ row last, next.idleSession claim (guardOf (store.sessions.lookup claim.session) look) own =
        .ok (row, last) ∧ claim.Idle last row ∧ row.leaseFence = next.fence claim.session ∧
      (∀ other, other ≠ claim.session → last.sessions.lookup other = next.sessions.lookup other) ∧
      last.requests = next.requests ∧ last.executions = next.executions := by
  cases stored : store.sessions.lookup claim.session with
  | none =>
    have absent : own = none := by
      cases present : own with
      | none => rfl
      | some graph => exact nomatch stored.symm.trans (meets.own graph present).2
    have free : next.sessions.lookup claim.session = none := by
      rw [cleared.session, absent]
      dsimp only
      rw [passed.session, stored]
      rfl
    have inserted := @insertSession_eq next (claim.sessionRow .idle none none) free
    refine ⟨_, _, bind_eq_ok.mpr ⟨_, inserted, rfl⟩, ⟨AList.lookup_insert _, rfl, rfl, rfl⟩, ?_,
      fun other apart => AList.lookup_insert_ne apart, rfl, rfl⟩
    rw [TurnStore.fence, free]
    rfl
  | some row =>
    have named : row.name = claim.session := (sound.sessionRows _ row stored).1
    obtain ⟨scope, key⟩ := Prod.mk.inj named
    cases present : own with
    | none =>
      have bumped : next.sessions.lookup claim.session = some row.bumped := by
        rw [cleared.session, present]
        dsimp only
        rw [passed.session, stored]
        rfl
      have fits := (TurnSession.validate_ok.mp (sound.sessionRows _ row stored).2).2.2.2.2
      have unowned := (fits.of_idle (meets.ownIdle present row stored)).2.2.1
      refine ⟨row.bumped, next, rfl, ⟨bumped, scope, key, unowned⟩, ?_, fun _ _ => rfl, rfl, rfl⟩
      rw [TurnStore.fence, bumped]
    | some graph =>
      have same : row = graph.session :=
        Option.some.inj (stored.symm.trans (meets.own graph present).2)
      have idle : next.sessions.lookup claim.session =
          some ({ graph with session := row.bumped } : TurnGraph).retiredSession := by
        rw [cleared.session, present, same]
      refine ⟨_, next, rfl, ⟨idle, scope, key, rfl⟩, ?_, fun _ _ => rfl, rfl, rfl⟩
      rw [TurnStore.fence, idle]

theorem TurnClaim.free_of_idle (sound : TurnsSound next)
    (session : ∀ row ∈ next.sessions.lookup claim.session, row.state = .idle)
    (request : ∀ row ∈ next.requests.lookup claim.request, row.state = .retired)
    (agrees : ∀ row ∈ next.executions.lookup claim.execution, ¬claim.Disagrees row) :
    claim.Free next := by
  refine ⟨session, request, fun row found => ⟨?_, agrees row found⟩⟩
  cases state : row.state with
  | retired => rfl
  | active =>
    obtain ⟨graph, stands, rfl⟩ := sound.executions _ row found state
    have agreeing := agrees _ found
    simp only [TurnClaim.Disagrees, not_or, not_not] at agreeing
    have named : graph.execution.name = claim.execution := (sound.executionRows _ _ found).1
    have stored := stands.session
    rw [stands.session_name, agreeing.1, show graph.execution.scope = claim.scope from
      (Prod.mk.inj named).1] at stored
    cases stands.sessionActive.symm.trans (session _ stored)

theorem TurnClaim.Cleared.idle (cleared : claim.Cleared middle next own)
    (meets : claim.Meets store own request) (passed : claim.Passed store middle own request) :
    ∀ row ∈ next.sessions.lookup claim.session, row.state = .idle := by
  intro row found
  rw [cleared.session] at found
  cases present : own with
  | none =>
    rw [present] at found
    obtain ⟨revision, stored⟩ := passed.same.session (show middle.sessions.lookup claim.session =
      some row from found)
    have idle := meets.ownIdle present _ stored
    exact idle
  | some graph =>
    rw [present] at found
    cases found
    rfl

theorem claimAgain_ends (sound : TurnsSound store) (formed : claim.Formed) (drawn : token ≠ "")
    (ordered : instants.Ordered clock) (duration : Int) :
    ClaimEnds store claim token instants (store.claimAgain claim token duration instants
      (store.sessions.lookup claim.session) (store.requests.lookup claim.request)
      (store.executions.lookup claim.execution)) := by
  obtain ⟨own, ownFound, ownStands, ownIdle⟩ := sessionAnchor_eq sound claim.session
  obtain ⟨request, requestFound, requestStands, requestRetired⟩ :=
    requestAnchor_eq sound claim.request
  have meets : claim.Meets store own request := ⟨ownStands, ownIdle, requestStands, requestRetired⟩
  unfold TurnStore.claimAgain
  rw [ownFound, ok_bind, requestFound, ok_bind]
  dsimp only
  rcases guards_cases meets sound ordered with conflicts | ⟨first, guarded, conflicts | rest⟩
  · rw [conflicts]
    exact .denied (.inr (.inl rfl))
  · rw [guarded, ok_bind]
    dsimp only
    rw [conflicts]
    exact .denied (.inr (.inl rfl))
  obtain ⟨middle, guarded', passed⟩ := rest
  rw [guarded, ok_bind]
  dsimp only
  rw [guarded', ok_bind]
  dsimp only
  rcases observed_cases meets sound ⟨rfl, rfl⟩ with
    denied | ⟨shown, observed, unowned⟩ | ⟨silent, ownQuiet, otherQuiet⟩
  · rw [denied]
    exact .denied (.inr (.inr (.inl rfl)))
  · rw [observed]
    exact .observed passed.same unowned
  rw [silent, ok_bind]
  dsimp only
  by_cases differs : ∃ row ∈ store.executions.lookup claim.execution, claim.Disagrees row
  case pos =>
    rw [refuse_of differs]
    exact .denied (.inr (.inl rfl))
  rw [refuse_of_not differs, ok_bind]
  obtain ⟨between, next, retired, retired', expires, cleared⟩ :=
    retirements_eq meets sound ordered passed drawn ownQuiet otherQuiet
  obtain ⟨row, last, idled, idle, fence, sessions, requests, executions⟩ :=
    idleSession_eq meets sound passed cleared instants.ownLook
  have soundNext : TurnsSound next := expires.sound drawn (passed.same.sound sound)
  have allExpires : Expires instants.change token store next :=
    (Expires.guard .refl passed.same).trans expires
  have free : claim.Free next := by
    refine TurnClaim.free_of_idle soundNext (cleared.idle meets passed) cleared.request
      fun row found disagrees => ?_
    obtain ⟨earlier, stored, record, owner, _⟩ := exists_left_of_rel allExpires.execution found
    refine differs ⟨earlier, stored, ?_⟩
    rwa [TurnClaim.Disagrees, record.sessionKey, record.requestKey, record.requestDigest,
      owner] at disagrees
  rw [retired, ok_bind, retired', ok_bind, idled, ok_bind]
  dsimp only
  have agrees : store.executions.lookup claim.execution = none →
      last.executions.lookup claim.execution = none := by
    intro missing
    rw [executions, Option.eq_none_iff_forall_not_mem]
    intro row later
    obtain ⟨_, stored, _⟩ := exists_left_of_rel allExpires.execution later
    cases missing.symm.trans stored
  rcases @grant_cases last instants.change claim token duration row idle formed drawn
      (fun row found => (soundNext.executionRows _ row (executions ▸ found)).2)
      (fun row found => (soundNext.requestRows _ row (requests ▸ found)).2) _ agrees with
    overflows | ⟨put, final, granted, puts, execution, request, session, rows⟩
  · rw [overflows]
    exact .denied (.inr (.inr (.inr rfl)))
  · rw [granted]
    refine .granted allExpires formed free (by rw [rows, fence, allExpires.fence])
      ⟨fun other => ?_, fun other => ?_, fun other => ?_⟩
    · rw [puts.sessions]
      split
      case isTrue => rfl
      case isFalse elsewhere =>
        refine sessions other fun same => elsewhere ?_
        rw [rows]
        exact same
    · rw [puts.requests, requests]
    · rw [puts.executions, executions]

def Malformed (error : Failure) : Prop := ∃ text, error = .valueError text

theorem requireText_raises (text : String) : RaisesOnly Malformed (requireText text) :=
  .refuse ⟨_, rfl⟩

theorem leaseDuration_raises (seconds : Rat) : RaisesOnly Malformed (leaseDuration seconds) := by
  refine .bind (.refuse ⟨_, rfl⟩) fun _ _ => .bind (.refuse ⟨_, rfl⟩) fun _ _ => .ok _

theorem TurnClaim.check_raises (claim : TurnClaim) : RaisesOnly Malformed claim.check := by
  refine .bind (requireText_raises _) fun _ _ => .bind (requireText_raises _) fun _ _ => ?_
  refine .bind (requireText_raises _) fun _ _ => .bind (requireText_raises _) fun _ _ => ?_
  refine .bind (requireText_raises _) fun _ _ => .bind (requireText_raises _) fun _ _ => ?_
  exact leaseDuration_raises _

theorem claimTurn_ends (sound : TurnsSound store) (drawn : token ≠ "")
    (ordered : instants.Ordered clock) :
    ClaimEnds store claim token instants (store.claimTurn claim token instants) := by
  unfold TurnStore.claimTurn
  cases checked : claim.check with
  | error error =>
    have malformed : Malformed error := claim.check_raises error checked
    exact .denied (.inl malformed)
  | ok duration =>
    have formed := claim.check_formed checked
    rw [ok_bind, loadSession_eq fun row found => (sound.sessionRows _ row found).2, ok_bind,
      loadRequest_eq fun row found => (sound.requestRows _ row found).2, ok_bind,
      loadExecution_eq fun row found => (sound.executionRows _ row found).2, ok_bind]
    split
    case isTrue free => exact claimFirst_ends sound formed drawn free.1 free.2.1 free.2.2 duration
    case isFalse => exact claimAgain_ends sound formed drawn ordered duration

variable {now : Time} {lease : TurnLease} {id : String}

inductive TurnOperation
  | claim (claim : TurnClaim)
  | renew (lease : TurnLease) (leaseSeconds : Rat)
  | release (lease : TurnLease)
  | cancel (scope executionId : String)

inductive TurnAnswer
  | turn (coordination : Option TurnCoordination)
  | flag (changed : Bool)
deriving DecidableEq

def TurnStore.perform (store : TurnStore) (operation : TurnOperation) (id : String)
    (instants : TurnInstants) : Except Failure (TurnAnswer × TurnStore) :=
  match operation with
  | .claim claim => do
    let (shown, store) ← store.claimTurn claim id instants
    return (.turn shown, store)
  | .renew lease seconds => do
    let (shown, store) ← store.renewTurn lease seconds id instants.change
    return (.turn shown, store)
  | .release lease => do
    let (released, store) ← store.releaseTurn lease id instants.change
    return (.flag released, store)
  | .cancel scope executionId => do
    let (cancelled, store) ← store.cancelTurn scope executionId id instants.change
    return (.flag cancelled, store)

inductive TurnOperation.Targets : TurnOperation → TurnName → Option TurnLease → Prop
  | renew {lease : TurnLease} {seconds : Rat} {name : TurnName}
      (identified : TurnStore.leaseIdentity lease = some name) :
      Targets (.renew lease seconds) name (some lease)
  | release {lease : TurnLease} {name : TurnName}
      (identified : TurnStore.leaseIdentity lease = some name) :
      Targets (.release lease) name (some lease)
  | cancel {scope executionId : String} :
      Targets (.cancel scope executionId) (scope, executionId) none

def TurnOperation.missed : TurnOperation → TurnAnswer
  | .claim _ => .turn none
  | .renew _ _ => .turn none
  | .release _ => .flag false
  | .cancel _ _ => .flag false

section

variable (store : TurnStore) (id : String) (instants : TurnInstants)

inductive TurnEnds : TurnOperation → Except Failure (TurnAnswer × TurnStore) → Prop
  | denied {operation : TurnOperation} {error : Failure} (denied : Denied error) :
      TurnEnds operation (.error error)
  | observed {claim : TurnClaim} {shown : Option TurnCoordination} {next : TurnStore}
      (same : SameTurns store next) (unowned : ∀ coordination ∈ shown, coordination.lease = none) :
      TurnEnds (.claim claim) (.ok (.turn shown, next))
  | granted {claim : TurnClaim} {middle next : TurnStore} {put : TurnGraph} {duration : Int}
      {execution request session : Nat} (expires : Expires instants.change id store middle)
      (formed : claim.Formed) (free : claim.Free middle)
      (rows : put = claim.granted id (store.fence claim.session + 1)
        (instants.change + duration) execution request session) (puts : Puts middle next put) :
      TurnEnds (.claim claim) (.ok (.turn (some (put.coordination true)), next))
  | missed {operation : TurnOperation} (changes : ∀ claim, operation ≠ .claim claim)
      (unreached : ∀ name lease, operation.Targets name lease →
        ∀ graph, ¬Reached store name lease instants.change graph) :
      TurnEnds operation (.ok (operation.missed, store))
  | renewed {lease : TurnLease} {seconds : Rat} {name : TurnName} {graph : TurnGraph}
      {duration : Int} {next : TurnStore} (identified : TurnStore.leaseIdentity lease = some name)
      (reached : Reached store name (some lease) instants.change graph)
      (puts : Puts store next (graph.receipted (some duration) instants.change id .renew)) :
      TurnEnds (.renew lease seconds) (.ok (.turn (some
        ((graph.receipted (some duration) instants.change id .renew).coordination true)), next))
  | cancelled {scope executionId : String} {graph : TurnGraph} {next : TurnStore}
      (reached : Reached store (scope, executionId) none instants.change graph)
      (puts : Puts store next (graph.receipted none instants.change id .cancel)) :
      TurnEnds (.cancel scope executionId) (.ok (.flag true, next))
  | released {lease : TurnLease} {name : TurnName} {graph : TurnGraph} {middle next : TurnStore}
      (identified : TurnStore.leaseIdentity lease = some name)
      (reached : Reached store name (some lease) instants.change graph)
      (same : SameTurns store middle)
      (stands : Stands middle { graph with session := graph.session.bumped })
      (puts : Puts middle next
        (({ graph with session := graph.session.bumped } : TurnGraph).retired id .release)) :
      TurnEnds (.release lease) (.ok (.flag true, next))

end

section

variable (sound : TurnsSound store)
include sound

section

variable (drawn : id ≠ "")
include drawn

theorem renewTurn_ends (seconds : Rat) :
    TurnEnds store id instants (.renew lease seconds)
      (store.perform (.renew lease seconds) id instants) := by
  unfold TurnStore.perform TurnStore.renewTurn
  dsimp only
  cases timed : leaseDuration seconds with
  | error error =>
    have malformed : Malformed error := leaseDuration_raises seconds error timed
    exact .denied (.inl malformed)
  | ok duration =>
    rw [ok_bind]
    cases identified : TurnStore.leaseIdentity lease with
    | none =>
      refine .missed (fun _ => nofun) fun name held targets => ?_
      cases targets with
      | renew named => exact nomatch identified.symm.trans named
    | some name =>
      dsimp only
      rcases @changeGraph_cases store name instants.change sound (some lease) .renew
        (some duration) (.inr ⟨rfl, nofun⟩) with
        ⟨unreached, missed⟩ | overflows | ⟨graph, reached, changed⟩
      · rw [missed]
        refine .missed (fun _ => nofun) fun other held targets => ?_
        cases targets with
        | renew named =>
          cases identified.symm.trans named
          exact unreached
      · rw [overflows]
        exact .denied (.inr (.inr (.inr rfl)))
      · obtain ⟨next, written, puts⟩ := writeReceipt_eq reached.stands sound drawn (.inl rfl)
          (some duration) instants.change
        rw [changed, ok_bind]
        dsimp only
        rw [written]
        exact .renewed identified reached puts

theorem cancelTurn_ends (scope executionId : String) :
    TurnEnds store id instants (.cancel scope executionId)
      (store.perform (.cancel scope executionId) id instants) := by
  unfold TurnStore.perform TurnStore.cancelTurn
  dsimp only
  cases named : requireText scope with
  | error error =>
    have malformed : Malformed error := requireText_raises scope error named
    exact .denied (.inl malformed)
  | ok =>
    rw [ok_bind]
    cases identified : requireText executionId with
    | error error =>
      have malformed : Malformed error := requireText_raises executionId error identified
      exact .denied (.inl malformed)
    | ok =>
      rw [ok_bind]
      rcases @changeGraph_cases store (scope, executionId) instants.change sound none .guard
        none (.inl ⟨rfl, rfl⟩) with
        ⟨unreached, missed⟩ | overflows | ⟨graph, reached, changed⟩
      · rw [missed]
        refine .missed (fun _ => nofun) fun other held targets => ?_
        cases targets
        exact unreached
      · rw [overflows]
        exact .denied (.inr (.inr (.inr rfl)))
      · obtain ⟨next, written, puts⟩ := writeReceipt_eq reached.stands sound drawn (.inr rfl)
          none instants.change
        rw [changed, ok_bind]
        dsimp only
        rw [written]
        exact .cancelled reached puts

theorem releaseTurn_ends :
    TurnEnds store id instants (.release lease) (store.perform (.release lease) id instants) := by
  unfold TurnStore.perform TurnStore.releaseTurn
  dsimp only
  cases identified : TurnStore.leaseIdentity lease with
  | none =>
    refine .missed (fun _ => nofun) fun name held targets => ?_
    cases targets with
    | release named => exact nomatch identified.symm.trans named
  | some name =>
    dsimp only
    rcases @changeGraph_cases store name instants.change sound (some lease) .guard none
      (.inl ⟨rfl, rfl⟩) with ⟨unreached, missed⟩ | overflows | ⟨graph, reached, changed⟩
    · rw [missed]
      refine .missed (fun _ => nofun) fun other held targets => ?_
      cases targets with
      | release named =>
        cases identified.symm.trans named
        exact unreached
    · rw [overflows]
      exact .denied (.inr (.inr (.inr rfl)))
    · have same := sameTurns_bumped reached.stands.session
      have stands := reached.stands.guarded same (AList.lookup_insert _)
      obtain ⟨next, retired, puts⟩ := retire_eq stands (same.sound sound) drawn
        (show ReceiptKind.release = .release ∨ ReceiptKind.release = .expire from .inl rfl)
      rw [changed, ok_bind]
      dsimp only
      change TurnEnds _ _ _ _ (do let _ ← _; _)
      erw [retired]
      exact .released identified reached same stands puts

theorem perform_ends (ordered : instants.Ordered clock) (operation : TurnOperation) :
    TurnEnds store id instants operation (store.perform operation id instants) := by
  cases operation with
  | renew lease seconds => exact renewTurn_ends sound drawn seconds
  | release lease => exact releaseTurn_ends sound drawn
  | cancel scope executionId => exact cancelTurn_ends sound drawn scope executionId
  | claim claim =>
    have ends := @claimTurn_ends store clock claim id instants sound drawn ordered
    unfold TurnStore.perform
    dsimp only
    generalize store.claimTurn claim id instants = outcome at ends ⊢
    cases ends with
    | denied denied => exact .denied denied
    | observed same unowned => exact .observed same unowned
    | granted expires formed free rows puts => exact .granted expires formed free rows puts

end

end

variable {issued : List String} {grants : List (TurnName × TurnLease)} {cancelled : List TurnLease}
  {kind : ReceiptKind}

/-- The rows tell the leases that were granted, and the cancellations of them. -/
structure Ledger (store : TurnStore) (issued : List String)
    (grants : List (TurnName × TurnLease)) (cancelled : List TurnLease) : Prop where
  sound : TurnsSound store
  drawn : ∀ name row, store.executions.lookup name = some row →
    row.token ∈ issued ∧ row.receiptId ∈ issued
  granted : ∀ name row, store.executions.lookup name = some row → row.state = .active →
    ((row.scope, row.sessionKey), row.lease) ∈ grants
  fences : ∀ grant ∈ grants, grant.2.fence ≤ store.fence grant.1 ∧ grant.2.token ∈ issued
  rising : grants.Pairwise fun newer older => newer.1 = older.1 → older.2.fence < newer.2.fence
  marks : ∀ name row, store.executions.lookup name = some row → row.state = .active →
    (row.cancelRequested = true ↔ row.lease ∈ cancelled)
  cancelled : ∀ lease ∈ cancelled, lease.token ∈ issued

namespace Ledger

theorem start : Ledger {} [] [] [] where
  sound := turnsSound_start
  drawn _ _ := nofun
  granted _ _ := nofun
  fences _ := nofun
  rising := .nil
  marks _ _ := nofun
  cancelled _ := nofun

theorem issue (ledger : Ledger store issued grants cancelled) (id : String) :
    Ledger store (id :: issued) grants cancelled where
  sound := ledger.sound
  drawn name row found :=
    (ledger.drawn name row found).imp (mem_cons_of_mem id) (mem_cons_of_mem id)
  granted := ledger.granted
  fences grant member := (ledger.fences grant member).imp_right (mem_cons_of_mem id)
  rising := ledger.rising
  marks := ledger.marks
  cancelled lease member := mem_cons_of_mem id (ledger.cancelled lease member)

theorem same (ledger : Ledger store issued grants cancelled) (same : SameTurns store next) :
    Ledger next issued grants cancelled where
  sound := same.sound ledger.sound
  drawn name row found := ledger.drawn name row (same.executions name ▸ found)
  granted name row found := ledger.granted name row (same.executions name ▸ found)
  fences grant member := by
    rw [same.fence]
    exact ledger.fences grant member
  rising := ledger.rising
  marks name row found := ledger.marks name row (same.executions name ▸ found)
  cancelled := ledger.cancelled

theorem fence_puts (puts : Puts store next put) (name : TurnName) : next.fence name =
      if name = put.session.name then put.session.leaseFence else store.fence name := by
  unfold TurnStore.fence
  rw [puts.sessions]
  by_cases here : name = put.session.name
  case pos => rw [if_pos here, if_pos here]
  case neg => rw [if_neg here, if_neg here]

section

variable (ledger : Ledger store issued grants cancelled)
include ledger

theorem retire (stands : Stands store graph)
    (puts : Puts store next (graph.retired id kind)) (ends : kind = .release ∨ kind = .expire)
    (received : id ≠ "") (known : id ∈ issued) : Ledger next issued grants cancelled where
  sound := ledger.sound.puts (stands.retired_fitting ledger.sound received ends) puts
  drawn name row found := by
    rcases puts.execution_cases found with ⟨_, rfl⟩ | found
    · exact ⟨(ledger.drawn _ _ stands.execution).1, known⟩
    · exact ledger.drawn name row found
  granted name row found active := by
    rcases puts.execution_cases found with ⟨_, rfl⟩ | found
    · cases active
    · exact ledger.granted name row found active
  fences grant member := by
    rw [fence_puts puts]
    obtain ⟨bounded, known⟩ := ledger.fences grant member
    refine ⟨?_, known⟩
    split
    case isTrue here =>
      have stored : store.sessions.lookup grant.1 = some graph.session := here ▸ stands.session
      rwa [TurnStore.fence, stored] at bounded
    case isFalse => exact bounded
  rising := ledger.rising
  marks name row found active := by
    rcases puts.execution_cases found with ⟨_, rfl⟩ | found
    · cases active
    · exact ledger.marks name row found active
  cancelled := ledger.cancelled

theorem expires (expires : Expires now id store next) (received : id ≠ "") (known : id ∈ issued) :
    Ledger next issued grants cancelled := by
  induction expires with
  | refl => exact ledger
  | guard _ same ih => exact ih.same same
  | retire _ stands _ puts ih => exact ih.retire stands puts (.inr rfl) received known

theorem receipt (stands : Stands store graph)
    {duration : Option Int} (puts : Puts store next (graph.receipted duration now id kind))
    (keeps : kind = .renew ∨ kind = .cancel) (received : id ≠ "") (known : id ∈ issued) :
    Ledger next issued grants
      ((if kind = .cancel then [graph.execution.lease] else []) ++ cancelled) where
  sound := ledger.sound.puts (stands.receipted_fitting ledger.sound received keeps duration now)
    puts
  drawn name row found := by
    rcases puts.execution_cases found with ⟨_, rfl⟩ | found
    · exact ⟨(ledger.drawn _ _ stands.execution).1, known⟩
    · exact ledger.drawn name row found
  granted name row found active := by
    rcases puts.execution_cases found with ⟨_, rfl⟩ | found
    · have before := ledger.granted _ _ stands.execution stands.executionActive
      exact before
    · exact ledger.granted name row found active
  fences grant member := by
    rw [fence_puts puts]
    obtain ⟨bounded, known⟩ := ledger.fences grant member
    obtain ⟨named, _, _, _, _, _, _, fence, _⟩ := graph.session.changed_fields duration now
    refine ⟨?_, known⟩
    split
    case isTrue here =>
      have stored : store.sessions.lookup grant.1 = some graph.session :=
        here.trans named ▸ stands.session
      rw [TurnStore.fence, stored] at bounded
      exact bounded.trans_eq fence.symm
    case isFalse => exact bounded
  rising := ledger.rising
  marks name row found active := by
    rw [puts.executions] at found
    split at found
    case isTrue =>
      cases found
      have marked := ledger.marks _ _ stands.execution stands.executionActive
      have before : (graph.receipted duration now id kind).execution.lease =
          graph.execution.lease := rfl
      rw [before]
      rcases keeps with rfl | rfl
      · exact marked
      · exact ⟨fun _ => mem_cons_self, fun _ => rfl⟩
    case isFalse elsewhere =>
      rw [ledger.marks name row found active, mem_append]
      refine ⟨.inr, fun member => member.resolve_left fun here => elsewhere ?_⟩
      split at here
      case isTrue =>
        have same := mem_singleton.mp here
        have key : LeaseKey.turn row.scope row.executionId =
            .turn graph.execution.scope graph.execution.executionId :=
          congrArg TurnLease.key same
        have named : row.name = name := (ledger.sound.executionRows name row found).1
        rw [← named]
        exact Prod.ext (LeaseKey.turn.inj key).1 (LeaseKey.turn.inj key).2
      case isFalse => cases here
  cancelled lease member := by
    rcases mem_append.mp member with here | earlier
    · split at here
      case isTrue =>
        rw [mem_singleton.mp here]
        exact (ledger.drawn _ _ stands.execution).1
      case isFalse => cases here
    · exact ledger.cancelled lease earlier

end

variable {execution request session : Nat}

theorem grant (ledger : Ledger store issued grants cancelled) (formed : claim.Formed)
    (free : claim.Free store) (received : id ≠ "") (known : id ∈ issued)
    (fresh : ∀ lease ∈ cancelled, lease.token ≠ id)
    (rows : put = claim.granted id (store.fence claim.session + 1) expiry execution request session)
    (puts : Puts store next put) :
    Ledger next issued ((claim.session, put.execution.lease) :: grants) cancelled := by
  subst rows
  have fitting := formed.fitting free ledger.sound received
    (Nat.le_add_left 1 (store.fence claim.session)) expiry execution request session
  refine ⟨ledger.sound.puts fitting puts, fun name row found => ?_,
    fun name row found active => ?_, fun grant member => ?_, .cons (fun grant member same => ?_)
    ledger.rising, fun name row found active => ?_, ledger.cancelled⟩
  · rw [puts.executions] at found
    split at found
    case isTrue =>
      cases found
      exact ⟨known, known⟩
    case isFalse => exact ledger.drawn name row found
  · rw [puts.executions] at found
    split at found
    case isTrue =>
      cases found
      exact mem_cons_self
    case isFalse => exact mem_cons_of_mem _ (ledger.granted name row found active)
  · rcases mem_cons.mp member with rfl | earlier
    · refine ⟨(fence_puts puts claim.session).ge.trans' ?_, known⟩
      exact (if_pos (show claim.session = claim.session from rfl)).ge
    · rw [fence_puts puts]
      obtain ⟨bounded, issued⟩ := ledger.fences grant earlier
      refine ⟨?_, issued⟩
      split
      case isTrue here =>
        have named : grant.1 = claim.session := here
        rw [named] at bounded
        exact bounded.trans (Nat.le_succ _)
      case isFalse => exact bounded
  · have bounded := (ledger.fences grant member).1
    have named : claim.session = grant.1 := same
    rw [← named] at bounded
    exact Nat.lt_succ_of_le bounded
  · rw [puts.executions] at found
    split at found
    case isTrue =>
      cases found
      exact ⟨nofun, fun member => absurd rfl (fresh _ member)⟩
    case isFalse => exact ledger.marks name row found active

end Ledger

end Linktools.Turn
