import Linktools.Library.Keyed
import Linktools.Turn.Steps

namespace Linktools.Turn

open Linktools.Core Library List Option
open State (Failure LeaseOperation datetimeMax)

variable {store next : TurnStore} {graph : TurnGraph} {name : TurnName} {now : Time}

def TurnSession.changed (row : TurnSession) (duration : Option Int) (now : Time) : TurnSession :=
  match duration with
  | none => row.bumped
  | some duration => { row.bumped with leaseExpiresAt := some (now + duration) }

def Changing (operation : LeaseOperation) (duration : Option Int) : Prop :=
  operation = .guard ∧ duration = none ∨ operation = .renew ∧ duration ≠ none

theorem apply_change {row : TurnSession} {operation : LeaseOperation} {duration : Option Int}
    (changing : Changing operation duration) (fits : row.Fits) : (¬row.LiveAt now ∧
      LeaseChange.apply ⟨operation, row.leaseOwner, row.leaseFence, duration⟩ row now = .ok none) ∨
    row.LiveAt now ∧
      (LeaseChange.apply ⟨operation, row.leaseOwner, row.leaseFence, duration⟩ row now =
          .error .overflowError ∨
        LeaseChange.apply ⟨operation, row.leaseOwner, row.leaseFence, duration⟩ row now =
          .ok (some (row.changed duration now))) := by
  rcases changing with ⟨rfl, rfl⟩ | ⟨rfl, timed⟩
  · by_cases live : row.LiveAt now
    case pos => exact .inr ⟨live, .inr (apply_guard live)⟩
    case neg => exact .inl ⟨live, apply_guard_expired live⟩
  · obtain ⟨length, rfl⟩ := ne_none_iff_exists'.mp timed
    by_cases live : row.LiveAt now
    case pos =>
      have allowed :
          ¬LeaseChange.Refuses ⟨.renew, row.leaseOwner, row.leaseFence, some length⟩ row now := by
        obtain ⟨owned, expiry, expires, later⟩ := live
        unfold LeaseChange.Refuses
        rw [if_neg (by simp [LeaseOperation.NeedsAvailable]), Option.mem_def.mp expires]
        simp [owned, later]
      refine .inr ⟨live, ?_⟩
      rw [LeaseChange.apply, if_neg (not_not.mpr rfl), if_neg allowed,
        if_neg (by simp [LeaseOperation.Guards])]
      split
      case isTrue => exact .inl rfl
      case isFalse => exact .inr rfl
    case neg =>
      have refused :
          LeaseChange.Refuses ⟨.renew, row.leaseOwner, row.leaseFence, some length⟩ row now := by
        unfold LeaseChange.Refuses
        rw [if_neg (by simp [LeaseOperation.NeedsAvailable])]
        exact .inl (row.available live fits)
      refine .inl ⟨live, ?_⟩
      rw [LeaseChange.apply, if_neg (not_not.mpr rfl), if_pos refused]

structure Reached (store : TurnStore) (name : TurnName) (lease : Option TurnLease) (now : Time)
    (graph : TurnGraph) : Prop where
  stands : Stands store graph
  named : graph.execution.name = name
  held : ∀ held ∈ lease, graph.execution.token = held.token ∧ graph.execution.fence = held.fence
  live : graph.session.LiveAt now

theorem changeGraph_cases (sound : TurnsSound store) {lease : Option TurnLease}
    {operation : LeaseOperation} {duration : Option Int} (changing : Changing operation duration) :
    ((∀ graph, ¬Reached store name lease now graph) ∧
      store.changeGraph name lease operation duration now = .ok (none, store)) ∨
    store.changeGraph name lease operation duration now = .error .overflowError ∨
    ∃ graph, Reached store name lease now graph ∧
      store.changeGraph name lease operation duration now =
        .ok (some { graph with session := graph.session.changed duration now }, { store with
          sessions := store.sessions.insert graph.session.name
            (graph.session.changed duration now) }) := by
  unfold TurnStore.changeGraph
  rw [loadExecution_eq fun row found => (sound.executionRows _ row found).2, ok_bind]
  cases found : store.executions.lookup name with
  | none =>
    refine .inl ⟨fun graph reached => ?_, rfl⟩
    have stored := reached.stands.execution
    rw [reached.named, found] at stored
    cases stored
  | some execution =>
    dsimp only
    by_cases holds : TurnStore.Holds lease execution
    case neg =>
      rw [if_neg holds]
      refine .inl ⟨fun graph reached => holds ?_, rfl⟩
      have stored := reached.stands.execution
      rw [reached.named, found] at stored
      cases stored
      exact ⟨reached.stands.executionActive, reached.held⟩
    case pos =>
      rw [if_pos holds]
      obtain ⟨graph, stands, rfl⟩ := sound.executions name execution found holds.1
      have named : graph.execution.name = name := (sound.executionRows name _ found).1
      have fits := (TurnSession.validate_ok.mp (sound.sessionRows _ _ stands.session).2).2.2.2.2
      rw [stands.executionGraph_eq sound, ok_bind, transition_eq stands.session]
      rcases @apply_change now graph.session operation duration changing fits with
        ⟨expired, refused⟩ | ⟨live, overflows | applied⟩
      · rw [refused]
        refine .inl ⟨fun other reached => expired ?_, rfl⟩
        have same := reached.stands.eq_of_execution stands (reached.named.trans named.symm)
        exact same ▸ reached.live
      · rw [overflows]
        exact .inr (.inl rfl)
      · rw [applied]
        exact .inr (.inr ⟨graph, ⟨stands, named, holds.2, live⟩, rfl⟩)

def TurnGraph.receipted (graph : TurnGraph) (duration : Option Int) (now : Time)
    (receipt : String) (kind : ReceiptKind) : TurnGraph where
  execution := { graph.execution with
    storageRevision := graph.execution.storageRevision + 1
    receiptId := receipt
    receiptKind := kind
    cancelRequested := decide (kind = .cancel) || graph.execution.cancelRequested }
  request := graph.request
  session := graph.session.changed duration now

theorem TurnSession.changed_fields (row : TurnSession) (duration : Option Int) (now : Time) :
    (row.changed duration now).name = row.name ∧ (row.changed duration now).scope = row.scope ∧
      (row.changed duration now).sessionKey = row.sessionKey ∧
      (row.changed duration now).executionId = row.executionId ∧
      (row.changed duration now).requestKey = row.requestKey ∧
      (row.changed duration now).state = row.state ∧
      (row.changed duration now).leaseOwner = row.leaseOwner ∧
      (row.changed duration now).leaseFence = row.leaseFence ∧
      (row.leaseExpiresAt ≠ none → (row.changed duration now).leaseExpiresAt ≠ none) := by
  cases duration with
  | none => exact ⟨rfl, rfl, rfl, rfl, rfl, rfl, rfl, rfl, id⟩
  | some => exact ⟨rfl, rfl, rfl, rfl, rfl, rfl, rfl, rfl, fun _ => nofun⟩

variable {receipt : String} {kind : ReceiptKind}

theorem Stands.receipted_fitting (stands : Stands store graph) (sound : TurnsSound store)
    (received : receipt ≠ "") (keeps : kind = .renew ∨ kind = .cancel) (duration : Option Int)
    (now : Time) : Fitting store (graph.receipted duration now receipt kind) := by
  have execution := TurnExecution.validate_ok.mp (sound.executionRows _ _ stands.execution).2
  have session := TurnSession.validate_ok.mp (sound.sessionRows _ _ stands.session).2
  obtain ⟨named, scope, key, executionId, requestKey, state, owner, fence, expiry⟩ :=
    graph.session.changed_fields duration now
  have fits := session.2.2.2.2.of_active stands.sessionActive
  refine ⟨TurnExecution.validate_ok.mpr ⟨execution.1, execution.2.1, execution.2.2.1, received,
    execution.2.2.2.2.1, fun _ => ?_, fun retired => ?_, fun cancel => ?_, fun claim => ?_⟩,
    (sound.requestRows _ _ stands.request).2, TurnSession.validate_ok.mpr ?_, stands.bound,
    .inl ⟨stands.executionActive, stands.requestActive, state.trans stands.sessionActive, ?_⟩,
    fun other standing shared => ?_, fun other row stored retired _ => ?_⟩
  · rcases keeps with rfl | rfl
    · exact mem_cons_of_mem _ mem_cons_self
    · exact mem_cons_of_mem _ (mem_cons_of_mem _ mem_cons_self)
  · exact absurd (stands.executionActive.symm.trans retired) nofun
  · change (decide (kind = .cancel) || _) = true
    rw [decide_eq_true (show kind = .cancel from cancel), Bool.true_or]
  · rcases keeps with rfl | rfl <;> cases claim
  · refine ⟨?_, ?_, ?_, ?_, ?_⟩
    · change (graph.session.changed duration now).scope ≠ ""
      rw [scope]
      exact session.1
    · change (graph.session.changed duration now).sessionKey ≠ ""
      rw [key]
      exact session.2.1
    · change (graph.session.changed duration now).executionId ≠ some ""
      rw [executionId]
      exact session.2.2.1
    · change (graph.session.changed duration now).requestKey ≠ some ""
      rw [requestKey]
      exact session.2.2.2.1
    · change (graph.session.changed duration now).Fits
      rw [TurnSession.Fits, state, stands.sessionActive]
      dsimp only
      rw [executionId, requestKey, owner, fence]
      exact ⟨fits.1, fits.2.1, fits.2.2.1, fits.2.2.2.1, fits.2.2.2.2.1, expiry fits.2.2.2.2.2⟩
  · obtain ⟨runScope, runKey, runRequest, runExecution, runOwner, runFence⟩ := stands.runs
    exact ⟨runScope.trans scope.symm, runKey.trans key.symm, requestKey.trans runRequest,
      executionId.trans runExecution, owner.trans runOwner, fence.trans runFence⟩
  · rw [show (graph.receipted duration now receipt kind).session.name = graph.session.name from
      named] at shared ⊢
    rcases shared with same | same | same
    · rw [standing.eq_of_session stands same]
      exact ⟨rfl, rfl, rfl⟩
    · rw [standing.eq_of_request stands same]
      exact ⟨rfl, rfl, rfl⟩
    · rw [standing.eq_of_execution stands same]
      exact ⟨rfl, rfl, rfl⟩
  · have same : store.executions.lookup graph.execution.name = some other := stored
    rw [stands.execution] at same
    cases same
    rw [stands.executionActive] at retired
    cases retired

theorem writeReceipt_eq (stands : Stands store graph) (sound : TurnsSound store)
    (received : receipt ≠ "") (keeps : kind = .renew ∨ kind = .cancel) (duration : Option Int)
    (now : Time) :
    ∃ next, TurnStore.writeReceipt { store with
        sessions := store.sessions.insert graph.session.name (graph.session.changed duration now) }
        { graph with session := graph.session.changed duration now } receipt kind =
        .ok (graph.receipted duration now receipt kind, next) ∧
      Puts store next (graph.receipted duration now receipt kind) := by
  have fitting := stands.receipted_fitting sound received keeps duration now
  have named := (graph.session.changed_fields duration now).1
  refine ⟨{ store with
    sessions := store.sessions.insert graph.session.name (graph.session.changed duration now)
    executions := store.executions.insert graph.execution.name
      (graph.receipted duration now receipt kind).execution }, ?_, fun other => ?_,
    fun other => ?_, fun _ => insert_lookup⟩
  · have replaced := @replaceExecution_eq { store with
        sessions := store.sessions.insert graph.session.name (graph.session.changed duration now) }
      (graph.receipted duration now receipt kind).execution graph.execution stands.execution
    obtain ⟨executing, requesting, running, runs⟩ :=
      fitting.states.resolve_right fun ended => nomatch stands.executionActive.symm.trans ended.1
    have standing := turnGraph_eq fitting.execution fitting.request fitting.session executing
      requesting running fitting.bound runs
    exact bind_eq_ok.mpr ⟨_, replaced, bind_eq_ok.mpr ⟨_, standing, rfl⟩⟩
  · rw [show (graph.receipted duration now receipt kind).session.name = graph.session.name from
      named]
    exact insert_lookup
  · by_cases here : other = graph.request.name
    case pos =>
      rw [show (graph.receipted duration now receipt kind).request.name = graph.request.name from
        rfl, if_pos here, here]
      exact stands.request
    case neg => exact (if_neg here).symm

variable {claim : TurnClaim} {token : String} {duration : Int}

def TurnClaim.granted (claim : TurnClaim) (token : String) (fence : Nat) (expiry : Time)
    (execution request session : Nat) : TurnGraph where
  execution := claim.executionRow token fence execution
  request := claim.requestRow request
  session := { claim.sessionRow .active (some claim.executionId) (some claim.requestKey) with
    storageRevision := session
    leaseOwner := some token
    leaseFence := fence
    leaseExpiresAt := some expiry }

structure TurnClaim.Formed (claim : TurnClaim) : Prop where
  scope : claim.scope ≠ ""
  sessionKey : claim.sessionKey ≠ ""
  requestKey : claim.requestKey ≠ ""
  requestDigest : claim.requestDigest ≠ ""
  executionId : claim.executionId ≠ ""
  ownerId : claim.ownerId ≠ ""

theorem TurnClaim.check_formed (checked : claim.check = .ok duration) : claim.Formed := by
  unfold TurnClaim.check requireText at checked
  obtain ⟨_, scope, checked⟩ := bind_eq_ok.mp checked
  obtain ⟨_, session, checked⟩ := bind_eq_ok.mp checked
  obtain ⟨_, request, checked⟩ := bind_eq_ok.mp checked
  obtain ⟨_, digest, checked⟩ := bind_eq_ok.mp checked
  obtain ⟨_, execution, checked⟩ := bind_eq_ok.mp checked
  obtain ⟨_, owner, _⟩ := bind_eq_ok.mp checked
  exact ⟨refuse_eq_ok.mp scope, refuse_eq_ok.mp session, refuse_eq_ok.mp request,
    refuse_eq_ok.mp digest, refuse_eq_ok.mp execution, refuse_eq_ok.mp owner⟩

structure TurnClaim.Free (claim : TurnClaim) (store : TurnStore) : Prop where
  session : ∀ row ∈ store.sessions.lookup claim.session, row.state = .idle
  request : ∀ row ∈ store.requests.lookup claim.request, row.state = .retired
  execution : ∀ row ∈ store.executions.lookup claim.execution,
    row.state = .retired ∧ ¬claim.Disagrees row

theorem TurnClaim.free_start (claim : TurnClaim) : claim.Free {} :=
  ⟨fun _ => nofun, fun _ => nofun, fun _ => nofun⟩

theorem TurnClaim.Formed.fitting (formed : claim.Formed) (free : claim.Free store)
    (sound : TurnsSound store) (drawn : token ≠ "") (fenced : 1 ≤ fence) (expiry : Time)
    (execution request session : Nat) :
    Fitting store (claim.granted token fence expiry execution request session) := by
  refine ⟨TurnExecution.validate_ok.mpr ⟨⟨formed.scope, formed.sessionKey, formed.requestKey,
    formed.requestDigest, formed.executionId⟩, formed.ownerId, drawn, drawn, fenced,
    fun _ => mem_cons_self, nofun, nofun, fun _ => ⟨rfl, rfl⟩⟩,
    TurnRequest.validate_ok.mpr ⟨formed.scope, formed.sessionKey, formed.requestKey,
      formed.requestDigest, formed.executionId⟩,
    TurnSession.validate_ok.mpr ⟨formed.scope, formed.sessionKey,
      fun same => formed.executionId (some.inj same),
      fun same => formed.requestKey (some.inj same), nofun, nofun, nofun,
      fun same => drawn (some.inj same), fenced, nofun⟩,
    ⟨rfl, rfl, rfl, rfl, rfl⟩, .inl ⟨rfl, rfl, rfl, rfl, rfl, rfl, rfl, rfl, rfl⟩,
    fun graph stands shared => ?_, fun row other stored _ bound => ?_⟩
  · rcases shared with same | same | same
    · have stored := stands.session
      rw [same] at stored
      exact nomatch stands.sessionActive.symm.trans (free.session _ stored)
    · have stored := stands.request
      rw [same] at stored
      exact nomatch stands.requestActive.symm.trans (free.request _ stored)
    · have stored := stands.execution
      rw [same] at stored
      exact nomatch stands.executionActive.symm.trans (free.execution _ stored).1
  · have agrees := (free.execution row stored).2
    simp only [TurnClaim.Disagrees, not_or, not_not] at agrees
    have named : row.name = claim.execution := (sound.executionRows _ row stored).1
    exact Prod.ext (bound.1.symm.trans (Prod.mk.inj named).1) (bound.2.2.1.symm.trans agrees.2.1)

def TurnSession.acquired (row : TurnSession) (token : String) (duration : Int) (now : Time) :
    TurnSession :=
  { row with
    storageRevision := row.storageRevision + 1
    leaseOwner := some token
    leaseFence := row.leaseFence + 1
    leaseExpiresAt := some (now + duration) }

theorem acquire_cases {row : TurnSession} (found : store.sessions.lookup row.name = some row)
    (unowned : row.leaseOwner = none) :
    store.acquire row token duration now = .error .overflowError ∨
      store.acquire row token duration now = .ok (row.acquired token duration now, { store with
        sessions := store.sessions.insert row.name (row.acquired token duration now) }) := by
  have allowed :
      ¬LeaseChange.Refuses ⟨.acquire, some token, row.leaseFence, some duration⟩ row now := by
    unfold LeaseChange.Refuses
    rw [if_pos (show LeaseOperation.NeedsAvailable .acquire from .inl rfl)]
    rintro (live | ⟨impossible, _⟩)
    · exact live.1 unowned
    · cases impossible
  unfold TurnStore.acquire
  rw [transition_eq found, LeaseChange.apply, if_neg (not_not.mpr rfl), if_neg allowed,
    if_neg (by simp [LeaseOperation.Guards])]
  split
  case isTrue => exact .inl rfl
  case isFalse => exact .inr rfl

theorem writeExecution_eq
    (valid : ∀ row ∈ store.executions.lookup claim.execution, row.validate = .ok ())
    {proposed : Option TurnExecution}
    (agrees : proposed = none → store.executions.lookup claim.execution = none) (fence : Nat) :
    ∃ revision, store.writeExecution claim proposed token fence =
      .ok (claim.executionRow token fence revision, { store with
        executions := store.executions.insert claim.execution
          (claim.executionRow token fence revision) }) := by
  have inserts (free : store.executions.lookup claim.execution = none) :
      store.insertExecution (claim.executionRow token fence 0) = .ok { store with
        executions := store.executions.insert claim.execution
          (claim.executionRow token fence 0) } :=
    insertExecution_eq free
  unfold TurnStore.writeExecution
  cases proposed with
  | none => exact ⟨0, bind_eq_ok.mpr ⟨_, inserts (agrees rfl), rfl⟩⟩
  | some _ =>
    dsimp only
    rw [loadExecution_eq valid, ok_bind]
    cases found : store.executions.lookup claim.execution with
    | none => exact ⟨0, bind_eq_ok.mpr ⟨_, inserts found, rfl⟩⟩
    | some previous =>
      refine ⟨previous.storageRevision + 1, bind_eq_ok.mpr ⟨_, ?_, rfl⟩⟩
      exact @replaceExecution_eq store
        (claim.executionRow token fence (previous.storageRevision + 1)) previous found

theorem writeRequest_eq
    (valid : ∀ row ∈ store.requests.lookup claim.request, row.validate = .ok ()) :
    ∃ revision, store.writeRequest claim = .ok (claim.requestRow revision, { store with
      requests := store.requests.insert claim.request (claim.requestRow revision) }) := by
  unfold TurnStore.writeRequest
  rw [loadRequest_eq valid, ok_bind]
  cases found : store.requests.lookup claim.request with
  | none => exact ⟨0, bind_eq_ok.mpr ⟨_, @insertRequest_eq store (claim.requestRow 0) found, rfl⟩⟩
  | some previous =>
    refine ⟨previous.storageRevision + 1, bind_eq_ok.mpr ⟨_, ?_, rfl⟩⟩
    exact @replaceRequest_eq store (claim.requestRow (previous.storageRevision + 1)) previous found

structure TurnClaim.Idle (claim : TurnClaim) (store : TurnStore) (row : TurnSession) : Prop where
  stored : store.sessions.lookup claim.session = some row
  scope : row.scope = claim.scope
  sessionKey : row.sessionKey = claim.sessionKey
  unowned : row.leaseOwner = none

/-- A grant puts the rows of the claim, under the next fence of the session. -/
theorem grant_cases {row : TurnSession} (idle : claim.Idle store row) (formed : claim.Formed)
    (drawn : token ≠ "")
    (executions : ∀ row ∈ store.executions.lookup claim.execution, row.validate = .ok ())
    (requests : ∀ row ∈ store.requests.lookup claim.request, row.validate = .ok ())
    {proposed : Option TurnExecution}
    (agrees : proposed = none → store.executions.lookup claim.execution = none) :
    store.grant claim row proposed token duration now = .error .overflowError ∨
      ∃ put next, store.grant claim row proposed token duration now =
        .ok (put.coordination true, next) ∧ Puts store next put ∧
        ∃ execution request session, put = claim.granted token (row.leaseFence + 1)
          (now + duration) execution request session := by
  have named : row.name = claim.session := Prod.ext idle.scope idle.sessionKey
  have found : store.sessions.lookup row.name = some row := named ▸ idle.stored
  rcases @acquire_cases store now token duration row found idle.unowned with
    overflows | acquired
  · exact .inl (by rw [TurnStore.grant, overflows]; rfl)
  refine .inr ?_
  obtain ⟨execution, executed⟩ := @writeExecution_eq { store with
    sessions := store.sessions.insert row.name (row.acquired token duration now) } claim token
    executions proposed agrees (row.leaseFence + 1)
  obtain ⟨request, requested⟩ := @writeRequest_eq { store with
    sessions := store.sessions.insert row.name (row.acquired token duration now)
    executions := store.executions.insert claim.execution
      (claim.executionRow token (row.leaseFence + 1) execution) } claim requests
  have current : (store.sessions.insert row.name (row.acquired token duration now)).lookup
      row.name = some (row.acquired token duration now) := AList.lookup_insert _
  have session : claim.granted token (row.leaseFence + 1) (now + duration) execution request
      (row.acquired token duration now).storageRevision.succ = ⟨
        claim.executionRow token (row.leaseFence + 1) execution, claim.requestRow request,
        { row.acquired token duration now with
          state := .active
          executionId := some claim.executionId
          requestKey := some claim.requestKey
          storageRevision := (row.acquired token duration now).storageRevision + 1 }⟩ := by
    rw [TurnClaim.granted, TurnClaim.sessionRow, TurnSession.acquired, idle.scope, idle.sessionKey]
  have replaced := @replaceSession_eq { store with
    sessions := store.sessions.insert row.name (row.acquired token duration now)
    executions := store.executions.insert claim.execution
      (claim.executionRow token (row.leaseFence + 1) execution)
    requests := store.requests.insert claim.request (claim.requestRow request) }
    { row.acquired token duration now with
      state := .active
      executionId := some claim.executionId
      requestKey := some claim.requestKey
      storageRevision := (row.acquired token duration now).storageRevision + 1 }
    (row.acquired token duration now) current
  have fitting : Fitting {} (claim.granted token (row.leaseFence + 1) (now + duration) execution
      request (row.acquired token duration now).storageRevision.succ) :=
    formed.fitting claim.free_start turnsSound_start drawn
      (Nat.le_add_left 1 row.leaseFence) (now + duration) execution request
      (row.acquired token duration now).storageRevision.succ
  rw [session] at fitting
  obtain ⟨executing, requesting, running, runs⟩ :=
    fitting.states.resolve_right fun ended => nomatch ended.1
  have standing := turnGraph_eq fitting.execution fitting.request fitting.session executing
    requesting running fitting.bound runs
  refine ⟨_, _, bind_eq_ok.mpr ⟨_, acquired, bind_eq_ok.mpr ⟨_, executed,
    bind_eq_ok.mpr ⟨_, requested, bind_eq_ok.mpr ⟨_, replaced,
      bind_eq_ok.mpr ⟨_, standing, rfl⟩⟩⟩⟩⟩, ?_, execution, request, _, session.symm⟩
  refine ⟨fun other => ?_, fun other => ?_, fun other => ?_⟩
  · change ((store.sessions.insert row.name _).insert row.name _).lookup other =
      if other = row.name then _ else _
    rw [insert_lookup]
    split
    case isTrue => rfl
    case isFalse elsewhere => rw [AList.lookup_insert_ne elsewhere]
  · exact insert_lookup
  · exact insert_lookup

open State (Failure)

variable {middle : TurnStore}

def TurnStore.fence (store : TurnStore) (name : TurnName) : Nat :=
  match store.sessions.lookup name with
  | none => 0
  | some row => row.leaseFence

theorem SameTurns.fence (same : SameTurns store next) (name : TurnName) :
    next.fence name = store.fence name := by
  unfold TurnStore.fence
  cases found : next.sessions.lookup name with
  | none =>
    have equal := same.sessions name
    rw [found] at equal
    rw [map_eq_none_iff.mp equal.symm]
  | some row =>
    obtain ⟨revision, stored⟩ := same.session found
    rw [stored]

inductive Expires (now : Time) (receipt : String) (store : TurnStore) : TurnStore → Prop
  | refl : Expires now receipt store store
  | guard {middle next : TurnStore} (before : Expires now receipt store middle)
      (same : SameTurns middle next) : Expires now receipt store next
  | retire {middle next : TurnStore} {graph : TurnGraph} (before : Expires now receipt store middle)
      (stands : Stands middle graph)
      (expired : ∀ expiry ∈ graph.session.leaseExpiresAt, expiry ≤ now)
      (puts : Puts middle next (graph.retired receipt .expire)) : Expires now receipt store next

namespace Expires

theorem trans (left : Expires now receipt store middle)
    (right : Expires now receipt middle next) : Expires now receipt store next := by
  induction right with
  | refl => exact left
  | guard _ same ih => exact .guard ih same
  | retire _ stands expired puts ih => exact .retire ih stands expired puts

theorem sound (expires : Expires now receipt store next) (received : receipt ≠ "")
    (sound : TurnsSound store) : TurnsSound next := by
  induction expires with
  | refl => exact sound
  | guard _ same ih => exact same.sound ih
  | retire _ stands _ puts ih => exact ih.puts (stands.retired_fitting ih received (.inr rfl)) puts

theorem request_retired (expires : Expires now receipt store next)
    (retired : ∀ row ∈ store.requests.lookup name, row.state = .retired) :
    ∀ row ∈ next.requests.lookup name, row.state = .retired := by
  induction expires with
  | refl => exact retired
  | guard _ same ih =>
    intro row found
    rw [same.requests] at found
    exact ih row found
  | retire _ _ _ puts ih =>
    intro row found
    rw [puts.requests] at found
    split at found
    case isTrue =>
      cases found
      rfl
    case isFalse => exact ih row found

end Expires

theorem Stands.before_retired {gone : TurnGraph} (standing : Stands next graph)
    (puts : Puts store next (gone.retired receipt kind)) :
    Stands store graph ∧ graph.execution.name ≠ gone.execution.name := by
  have session : graph.session.name ≠ (gone.retired receipt kind).session.name := by
    intro same
    have stored := standing.session
    rw [puts.sessions, if_pos same] at stored
    exact nomatch standing.sessionActive.symm.trans
      (congrArg TurnSession.state (some.inj stored)).symm
  have request : graph.request.name ≠ (gone.retired receipt kind).request.name := by
    intro same
    have stored := standing.request
    rw [puts.requests, if_pos same] at stored
    exact nomatch standing.requestActive.symm.trans
      (congrArg TurnRequest.state (some.inj stored)).symm
  have execution : graph.execution.name ≠ (gone.retired receipt kind).execution.name := by
    intro same
    have stored := standing.execution
    rw [puts.executions, if_pos same] at stored
    exact nomatch standing.executionActive.symm.trans
      (congrArg TurnExecution.state (some.inj stored)).symm
  refine ⟨⟨?_, ?_, ?_, standing.executionActive, standing.requestActive,
    standing.sessionActive, standing.bound, standing.runs⟩, execution⟩
  · have stored := standing.execution
    rwa [puts.executions, if_neg execution] at stored
  · have stored := standing.request
    rwa [puts.requests, if_neg request] at stored
  · have stored := standing.session
    rwa [puts.sessions, if_neg session] at stored

structure SameRecord (row other : TurnExecution) : Prop where
  scope : other.scope = row.scope
  sessionKey : other.sessionKey = row.sessionKey
  requestKey : other.requestKey = row.requestKey
  requestDigest : other.requestDigest = row.requestDigest
  executionId : other.executionId = row.executionId

theorem SameRecord.refl : SameRecord row row := ⟨rfl, rfl, rfl, rfl, rfl⟩

theorem SameRecord.trans (left : SameRecord first second) (right : SameRecord second third) :
    SameRecord first third :=
  ⟨right.scope.trans left.scope, right.sessionKey.trans left.sessionKey,
    right.requestKey.trans left.requestKey, right.requestDigest.trans left.requestDigest,
    right.executionId.trans left.executionId⟩

namespace Expires

section

variable (expires : Expires now receipt store next)
include expires

theorem execution :
    Option.Rel (fun row later => SameRecord row later ∧ later.ownerId = row.ownerId ∧
        later.token = row.token ∧ later.fence = row.fence ∧
        later.cancelRequested = row.cancelRequested ∧ (later.state = .active → later = row) ∧
        (later = row ∨ later.receiptId = receipt ∧ later.receiptKind = .expire))
      (store.executions.lookup name) (next.executions.lookup name) := by
  induction expires with
  | refl =>
    cases store.executions.lookup name with
    | none => exact .none
    | some row => exact .some ⟨.refl, rfl, rfl, rfl, rfl, fun _ => rfl, .inl rfl⟩
  | guard _ same ih => rwa [same.executions]
  | @retire middle next graph _ stands _ puts ih =>
    rw [puts.executions]
    split
    case isTrue here =>
      have stored : middle.executions.lookup name = some graph.execution := here ▸ stands.execution
      rw [stored] at ih
      cases found : store.executions.lookup name with
      | none =>
        rw [found] at ih
        cases ih
      | some row =>
        rw [found] at ih
        cases ih with
        | some same =>
          obtain ⟨record, owner, token, fence, cancelled, _⟩ := same
          exact .some ⟨record.trans ⟨rfl, rfl, rfl, rfl, rfl⟩, owner, token, fence,
            cancelled, nofun, .inr ⟨rfl, rfl⟩⟩
    case isFalse => exact ih

theorem fence (name : TurnName) : next.fence name = store.fence name := by
  induction expires with
  | refl => rfl
  | @guard middle next _ same ih =>
    rw [← ih]
    exact same.fence name
  | @retire middle next graph _ stands _ puts ih =>
    rw [← ih, TurnStore.fence, puts.sessions]
    split
    case h_1 missing =>
      split at missing
      case isTrue => cases missing
      case isFalse => rw [TurnStore.fence, missing]
    case h_2 row found =>
      split at found
      case isTrue here =>
        cases found
        rw [TurnStore.fence, here, show middle.sessions.lookup
          (graph.retired receipt .expire).session.name = some graph.session from stands.session]
        rfl
      case isFalse => rw [TurnStore.fence, found]

theorem stood (standing : Stands next graph) : ∃ revision, Stands store { graph with
      session := { graph.session with storageRevision := revision } } := by
  induction expires generalizing graph with
  | refl => exact ⟨graph.session.storageRevision, standing⟩
  | guard _ same ih =>
    obtain ⟨_, stood⟩ := same.stands standing
    obtain ⟨revision, before⟩ := ih stood
    exact ⟨revision, before⟩
  | @retire middle next retired _ stands expired puts ih =>
    exact ih (standing.before_retired puts).1

end

end Expires

variable {instants : TurnInstants}

def Denied (error : Failure) : Prop :=
  (∃ text, error = .valueError text) ∨ error = .conflict ∨
    error = .raised (.ai .idempotencyConflict) ∨ error = .overflowError

theorem Denied.not_integrity (denied : Denied error) : error ≠ integrity := by
  rcases denied with ⟨text, rfl⟩ | rfl | rfl | rfl <;> exact nofun

/-- The instants of a transaction, in the order in which it reads them. -/
structure TurnInstants.Ordered (instants : TurnInstants) (clock : Time) : Prop where
  own : clock ≤ instants.ownLook ∧ instants.ownLook ≤ instants.ownGuard ∧
    instants.ownGuard ≤ instants.change
  other : clock ≤ instants.otherLook ∧ instants.otherLook ≤ instants.otherGuard ∧
    instants.otherGuard ≤ instants.change

inductive ClaimEnds (store : TurnStore) (claim : TurnClaim) (token : String)
    (instants : TurnInstants) : Except Failure (Option TurnCoordination × TurnStore) → Prop
  | denied (denied : Denied error) : ClaimEnds store claim token instants
      (.error error)
  | observed {shown : Option TurnCoordination} {next : TurnStore} (same : SameTurns store next)
      (unowned : ∀ coordination ∈ shown, coordination.lease = none) :
      ClaimEnds store claim token instants (.ok (shown, next))
  | granted {middle next : TurnStore} {put : TurnGraph} {duration : Int}
      {execution request session : Nat} (expires : Expires instants.change token store middle)
      (formed : claim.Formed) (free : claim.Free middle)
      (rows : put = claim.granted token (store.fence claim.session + 1)
        (instants.change + duration) execution request session) (puts : Puts middle next put) :
      ClaimEnds store claim token instants (.ok (some (put.coordination true), next))

theorem sessionAnchor_eq (sound : TurnsSound store) (name : TurnName) :
    ∃ found, store.sessionAnchor (store.sessions.lookup name) = .ok found ∧
      (∀ graph ∈ found, Stands store graph ∧ store.sessions.lookup name = some graph.session) ∧
      (found = none → ∀ row ∈ store.sessions.lookup name, row.state = .idle) := by
  unfold TurnStore.sessionAnchor
  cases stored : store.sessions.lookup name with
  | none => exact ⟨none, rfl, fun _ => nofun, fun _ _ => nofun⟩
  | some row =>
    dsimp only
    cases state : row.state with
    | idle =>
      refine ⟨none, rfl, fun _ => nofun, fun _ other same => ?_⟩
      cases same
      exact state
    | active =>
      obtain ⟨graph, stands, rfl⟩ := sound.sessions name row stored state
      dsimp only
      rw [stands.sessionGraph_eq sound]
      refine ⟨some graph, rfl, fun other same => ?_, nofun⟩
      cases same
      exact ⟨stands, rfl⟩

theorem requestAnchor_eq (sound : TurnsSound store) (name : TurnName) :
    ∃ found, store.requestAnchor (store.requests.lookup name) = .ok found ∧
      (∀ graph ∈ found, Stands store graph ∧ store.requests.lookup name = some graph.request) ∧
      (found = none → ∀ row ∈ store.requests.lookup name, row.state = .retired) := by
  unfold TurnStore.requestAnchor
  cases stored : store.requests.lookup name with
  | none => exact ⟨none, rfl, fun _ => nofun, fun _ _ => nofun⟩
  | some row =>
    dsimp only
    cases state : row.state with
    | retired =>
      dsimp only
      rw [requireRetired_eq sound stored state]
      refine ⟨none, rfl, fun _ => nofun, fun _ other same => ?_⟩
      cases same
      exact state
    | active =>
      obtain ⟨graph, stands, rfl⟩ := sound.requests name row stored state
      dsimp only
      rw [stands.requestGraph_eq sound]
      refine ⟨some graph, rfl, fun other same => ?_, nofun⟩
      cases same
      exact ⟨stands, rfl⟩

def guardOf (row : Option TurnSession) (look : Time) : Option GuardedSession :=
  row.map fun row => ⟨row.bumped, decide (row.LiveAt look)⟩

theorem guardSome_cases
    (stored : ∀ found ∈ row, store.sessions.lookup found.name = some found ∧ found.Fits)
    (ordered : look ≤ now) : store.guardSome row look now = .error .conflict ∨
      ∃ next, store.guardSome row look now = .ok (guardOf row look, next) ∧ SameTurns store next ∧
        (∀ found ∈ row, next.sessions.lookup found.name = some found.bumped) ∧
        ∀ other, (∀ found ∈ row, other ≠ found.name) →
          next.sessions.lookup other = store.sessions.lookup other := by
  cases row with
  | none => exact .inr ⟨store, rfl, .refl, fun _ => nofun, fun _ _ => rfl⟩
  | some row =>
    obtain ⟨found, fits⟩ := stored row rfl
    rcases guardSession_cases found fits ordered with conflicts | guarded
    · exact .inl (by rw [TurnStore.guardSome, conflicts]; rfl)
    · refine .inr ⟨_, bind_eq_ok.mpr ⟨_, guarded, rfl⟩, sameTurns_bumped found,
        fun other same => ?_, fun other apart => AList.lookup_insert_ne (apart row rfl)⟩
      cases same
      exact AList.lookup_insert _

structure TurnClaim.Meets (claim : TurnClaim) (store : TurnStore)
    (session asked : Option TurnGraph) : Prop where
  own : ∀ graph ∈ session, Stands store graph ∧
    store.sessions.lookup claim.session = some graph.session
  ownIdle : session = none → ∀ row ∈ store.sessions.lookup claim.session, row.state = .idle
  request : ∀ graph ∈ asked, Stands store graph ∧
    store.requests.lookup claim.request = some graph.request
  requestRetired : asked = none → ∀ row ∈ store.requests.lookup claim.request, row.state = .retired

variable {own request : Option TurnGraph}

theorem TurnClaim.Meets.elsewhere (meets : claim.Meets store own request) (sound : TurnsSound store)
    (other : graph ∈ claim.elsewhere request) :
    graph ∈ request ∧ Stands store graph ∧ graph.session.name ≠ claim.session ∧
      graph.request.name = claim.request := by
  obtain ⟨member, apart⟩ := filter_eq_some_iff.mp other
  obtain ⟨stands, stored⟩ := meets.request graph member
  refine ⟨member, stands, fun same => ?_, (sound.requestRows _ _ stored).1⟩
  exact of_decide_eq_true apart (Prod.mk.inj same).2

theorem TurnClaim.Meets.here (meets : claim.Meets store own request) (sound : TurnsSound store)
    (member : graph ∈ request) (same : graph.session.sessionKey = claim.sessionKey) :
    own = some graph ∧ store.sessions.lookup claim.session = some graph.session := by
  obtain ⟨stands, stored⟩ := meets.request graph member
  have named : graph.request.name = claim.request := (sound.requestRows _ _ stored).1
  have session : graph.session.name = claim.session := by
    refine Prod.ext ?_ same
    rw [TurnSession.name, ← stands.runs.1, stands.bound.1]
    exact (Prod.mk.inj named).1
  have found : store.sessions.lookup claim.session = some graph.session := session ▸ stands.session
  refine ⟨?_, found⟩
  cases present : own with
  | none => cases stands.sessionActive.symm.trans (meets.ownIdle present _ found)
  | some other =>
    obtain ⟨standing, same⟩ := meets.own other present
    rw [found] at same
    rw [standing.eq_of_session stands (congrArg TurnSession.name (some.inj same).symm)]

structure TurnClaim.Guarded (claim : TurnClaim) (store : TurnStore) (request : Option TurnGraph)
    (instants : TurnInstants) (own other : Option GuardedSession) : Prop where
  own : own = guardOf (store.sessions.lookup claim.session) instants.ownLook
  other : other = guardOf ((claim.elsewhere request).map (·.session)) instants.otherLook

/-- A claim is answered, or none of the turns in its way is live any more. -/
theorem observed_cases (meets : claim.Meets store own request) (sound : TurnsSound store)
    (guarded : claim.Guarded store request instants ownGuard otherGuard) :
    claim.observed request ownGuard otherGuard = .error (.raised (.ai .idempotencyConflict)) ∨
      (∃ shown, claim.observed request ownGuard otherGuard = .ok (some shown) ∧
        ∀ coordination ∈ shown, coordination.lease = none) ∨
      claim.observed request ownGuard otherGuard = .ok none ∧
        (∀ guard ∈ ownGuard, guard.live = false) ∧ ∀ guard ∈ otherGuard, guard.live = false := by
  have settle : ∀ elsewhere : ∀ guard ∈ otherGuard, guard.live = false,
      (∃ shown, (.ok (if ownGuard.any (·.live) then some none else none) :
          Except Failure (Option (Option TurnCoordination))) = .ok (some shown) ∧
        ∀ coordination ∈ shown, coordination.lease = none) ∨
      (.ok (if ownGuard.any (·.live) then some none else none) :
          Except Failure (Option (Option TurnCoordination))) = .ok none ∧
        (∀ guard ∈ ownGuard, guard.live = false) ∧ ∀ guard ∈ otherGuard, guard.live = false := by
    intro elsewhere
    cases ownGuard with
    | none => exact .inr ⟨rfl, fun _ => nofun, elsewhere⟩
    | some guard =>
      cases live : guard.live with
      | true =>
        refine .inl ⟨none, ?_, fun _ => nofun⟩
        rw [if_pos (show Option.any (·.live) (some guard) = true from live)]
      | false =>
        refine .inr ⟨?_, fun other same => ?_, elsewhere⟩
        · rw [if_neg (by rw [any_some, live]; exact Bool.false_ne_true)]
        · cases same
          exact live
  unfold TurnClaim.observed
  cases asked : request with
  | none =>
    dsimp only
    have missing : otherGuard = none := by
      rw [guarded.other, asked]
      rfl
    exact .inr (settle (by rw [missing]; exact fun _ => nofun))
  | some graph =>
    dsimp only
    have member : graph ∈ request := asked
    obtain ⟨guard, selected, elsewhere⟩ : ∃ guard,
        (if graph.session.sessionKey = claim.sessionKey then ownGuard else otherGuard) =
          some guard ∧ (guard.live = false → ∀ other ∈ otherGuard, other.live = false) := by
      by_cases same : graph.session.sessionKey = claim.sessionKey
      case pos =>
        obtain ⟨_, found⟩ := meets.here sound member same
        have missing : otherGuard = none := by
          rw [guarded.other, asked, TurnClaim.elsewhere, filter_some,
            if_neg (by simp [same])]
          rfl
        rw [if_pos same, guarded.own, found, missing]
        exact ⟨_, rfl, fun _ _ => nofun⟩
      case neg =>
        have other : otherGuard = guardOf (some graph.session) instants.otherLook := by
          rw [guarded.other, asked, TurnClaim.elsewhere, filter_some,
            if_pos (by simp [same])]
          rfl
        rw [if_neg same, other]
        refine ⟨_, rfl, fun quiet guard same => ?_⟩
        cases same
        exact quiet
    rw [selected]
    cases live : guard.live with
    | true =>
      simp only [orRaise, ok_bind, live, if_true]
      by_cases differs : graph.request.sessionKey ≠ claim.sessionKey ∨
          graph.request.requestDigest ≠ claim.requestDigest
      case pos => exact .inl (by rw [refuse_of differs]; rfl)
      case neg =>
        refine .inr (.inl ⟨some (graph.coordination false), ?_, fun other same => ?_⟩)
        · rw [refuse_of_not differs]
          rfl
        · cases same
          rfl
    | false =>
      simp only [orRaise, ok_bind, live, Bool.false_eq_true, if_false]
      exact .inr (settle (elsewhere live))

theorem guardOf_expired {row : TurnSession} {look : Time} {guard : GuardedSession}
    (own : guard ∈ guardOf (some row) look) (quiet : guard.live = false) (ordered : look ≤ now)
    (owned : row.leaseOwner ≠ none) :
    guard.row = row.bumped ∧ ∀ expiry ∈ row.leaseExpiresAt, expiry ≤ now := by
  cases own
  refine ⟨rfl, fun expiry expires => ?_⟩
  by_contra later
  refine of_decide_eq_false quiet ⟨owned, expiry, expires, ?_⟩
  exact lt_of_le_of_lt ordered (not_le.mp later)

theorem retireExpired_eq (sound : TurnsSound store) (received : token ≠ "")
    {guard : Option GuardedSession} {turn : Option TurnGraph}
    (stands : ∀ graph ∈ turn, Stands store { graph with session := graph.session.bumped })
    (guarded : ∀ graph ∈ turn, ∃ look ≤ now, guard = guardOf (some graph.session) look)
    (quiet : ∀ found ∈ guard, found.live = false) :
    ∃ next, store.retireExpired turn guard token = .ok next ∧ Expires now token store next ∧
      (turn = none → next = store) ∧ ∀ graph ∈ turn, Puts store next
        (({ graph with session := graph.session.bumped } : TurnGraph).retired token .expire) := by
  cases turn with
  | none => exact ⟨store, rfl, .refl, fun _ => rfl, fun _ => nofun⟩
  | some graph =>
    obtain ⟨look, ordered, same⟩ := guarded graph rfl
    have standing := stands graph rfl
    have fits := (TurnSession.validate_ok.mp (sound.sessionRows _ _ standing.session).2).2.2.2.2
    have active := fits.of_active standing.sessionActive
    have still : (decide (graph.session.LiveAt look)) = false :=
      quiet ⟨graph.session.bumped, decide (graph.session.LiveAt look)⟩ same
    obtain ⟨_, expired⟩ := @guardOf_expired now graph.session look _ rfl still ordered active.2.2.1
    obtain ⟨next, retired, puts⟩ := retire_eq standing sound received
      (show ReceiptKind.expire = .release ∨ ReceiptKind.expire = .expire from .inr rfl)
    refine ⟨next, ?_, .retire .refl standing expired puts, nofun, fun other same => ?_⟩
    · rw [TurnStore.retireExpired, same]
      refine bind_eq_ok.mpr ⟨_, rfl, bind_eq_ok.mpr ⟨(), ?_, retired⟩⟩
      exact refuse_of_not fun live => nomatch still.symm.trans live
    · cases same
      exact puts

end Linktools.Turn
