import Linktools.Turn.Coordination

namespace Linktools.Turn

open Linktools.Core Library

/-! The rows of a sound store form graphs that share nothing, and every write keeps them so. -/

/-- The three rows of a graph are stored, active and bound to each other. -/
structure Stands (store : TurnStore) (graph : TurnGraph) : Prop where
  execution : store.executions.lookup graph.execution.name = some graph.execution
  request : store.requests.lookup graph.request.name = some graph.request
  session : store.sessions.lookup graph.session.name = some graph.session
  executionActive : graph.execution.state = .active
  requestActive : graph.request.state = .active
  sessionActive : graph.session.state = .active
  bound : graph.execution.Bound graph.request
  runs : graph.execution.Runs graph.session

structure TurnsSound (store : TurnStore) : Prop where
  sessionRows : ∀ name row, store.sessions.lookup name = some row →
    row.name = name ∧ row.validate = .ok ()
  requestRows : ∀ name row, store.requests.lookup name = some row →
    row.name = name ∧ row.validate = .ok ()
  executionRows : ∀ name row, store.executions.lookup name = some row →
    row.name = name ∧ row.validate = .ok ()
  sessions : ∀ name row, store.sessions.lookup name = some row → row.state = .active →
    ∃ graph, Stands store graph ∧ graph.session = row
  requests : ∀ name row, store.requests.lookup name = some row → row.state = .active →
    ∃ graph, Stands store graph ∧ graph.request = row
  executions : ∀ name row, store.executions.lookup name = some row → row.state = .active →
    ∃ graph, Stands store graph ∧ graph.execution = row
  retired : ∀ name row, store.requests.lookup name = some row → row.state = .retired →
    ∃ execution, store.executions.lookup (row.scope, row.executionId) = some execution ∧
      execution.state = .retired ∧ execution.Bound row

variable {store next : TurnStore} {graph other put : TurnGraph}

theorem turnsSound_start : TurnsSound {} where
  sessionRows _ _ := nofun
  requestRows _ _ := nofun
  executionRows _ _ := nofun
  sessions _ _ := nofun
  requests _ _ := nofun
  executions _ _ := nofun
  retired _ _ := nofun

namespace Stands

section

variable (stands : Stands store graph)
include stands

theorem execution_name :
    graph.execution.name = (graph.session.scope, graph.request.executionId) := by
  rw [TurnExecution.name, stands.runs.1, stands.bound.2.2.2.2]

theorem request_name :
    graph.request.name = (graph.session.scope, graph.execution.requestKey) := by
  rw [TurnRequest.name, ← stands.runs.1, stands.bound.1, stands.bound.2.2.1]

theorem session_name :
    graph.session.name = (graph.execution.scope, graph.execution.sessionKey) := by
  rw [TurnSession.name, stands.runs.1, stands.runs.2.1]

end

section

variable (left : Stands store graph)
include left

section

variable (right : Stands store other)
include right

theorem eq_of_execution (same : graph.execution.name = other.execution.name) : graph = other := by
  have executions : graph.execution = other.execution := by
    have found := left.execution
    rw [same, right.execution] at found
    exact (Option.some.inj found).symm
  have requests : graph.request = other.request := by
    have found := left.request
    rw [left.request_name, ← left.runs.1, executions, right.runs.1, ← right.request_name,
      right.request] at found
    exact (Option.some.inj found).symm
  have sessions : graph.session = other.session := by
    have found := left.session
    rw [left.session_name, executions, ← right.session_name, right.session] at found
    exact (Option.some.inj found).symm
  obtain ⟨execution, request, session⟩ := graph
  obtain ⟨execution', request', session'⟩ := other
  cases executions
  cases requests
  cases sessions
  rfl

theorem eq_of_request (same : graph.request.name = other.request.name) : graph = other := by
  have requests : graph.request = other.request := by
    have found := left.request
    rw [same, right.request] at found
    exact (Option.some.inj found).symm
  apply left.eq_of_execution right
  rw [TurnExecution.name, TurnExecution.name, left.bound.1, left.bound.2.2.2.2, requests,
    ← right.bound.1, ← right.bound.2.2.2.2]

theorem eq_of_session (same : graph.session.name = other.session.name) : graph = other := by
  have sessions : graph.session = other.session := by
    have found := left.session
    rw [same, right.session] at found
    exact (Option.some.inj found).symm
  apply left.eq_of_execution right
  have ids : some graph.execution.executionId = some other.execution.executionId := by
    rw [← left.runs.2.2.2.1, sessions, right.runs.2.2.2.1]
  rw [TurnExecution.name, TurnExecution.name, Option.some.inj ids, left.runs.1, sessions,
    ← right.runs.1]

end

end

end Stands

structure Puts (store next : TurnStore) (graph : TurnGraph) : Prop where
  sessions : ∀ name, next.sessions.lookup name =
    if name = graph.session.name then some graph.session else store.sessions.lookup name
  requests : ∀ name, next.requests.lookup name =
    if name = graph.request.name then some graph.request else store.requests.lookup name
  executions : ∀ name, next.executions.lookup name =
    if name = graph.execution.name then some graph.execution else store.executions.lookup name

structure Fitting (store : TurnStore) (put : TurnGraph) : Prop where
  execution : put.execution.validate = .ok ()
  request : put.request.validate = .ok ()
  session : put.session.validate = .ok ()
  bound : put.execution.Bound put.request
  states : put.execution.state = .active ∧ put.request.state = .active ∧
      put.session.state = .active ∧ put.execution.Runs put.session ∨
    put.execution.state = .retired ∧ put.request.state = .retired ∧ put.session.state = .idle
  shares : ∀ graph, Stands store graph →
    graph.session.name = put.session.name ∨ graph.request.name = put.request.name ∨
      graph.execution.name = put.execution.name →
    graph.session.name = put.session.name ∧ graph.request.name = put.request.name ∧
      graph.execution.name = put.execution.name
  retired : ∀ execution request, store.executions.lookup put.execution.name = some execution →
    execution.state = .retired → execution.Bound request → request.name = put.request.name

theorem Puts.execution_cases (puts : Puts store next put)
    (found : next.executions.lookup name = some row) :
    name = put.execution.name ∧ row = put.execution ∨ store.executions.lookup name = some row := by
  rw [puts.executions] at found
  split at found
  case isTrue here =>
    cases found
    exact .inl ⟨here, rfl⟩
  case isFalse => exact .inr found

theorem Stands.puts (stands : Stands store graph) (puts : Puts store next put)
    (session : graph.session.name ≠ put.session.name)
    (request : graph.request.name ≠ put.request.name)
    (execution : graph.execution.name ≠ put.execution.name) : Stands next graph :=
  ⟨by rw [puts.executions, if_neg execution, stands.execution],
    by rw [puts.requests, if_neg request, stands.request],
    by rw [puts.sessions, if_neg session, stands.session],
    stands.executionActive, stands.requestActive, stands.sessionActive, stands.bound, stands.runs⟩

theorem Puts.stands (puts : Puts store next put) (executionActive : put.execution.state = .active)
    (requestActive : put.request.state = .active) (sessionActive : put.session.state = .active)
    (bound : put.execution.Bound put.request) (runs : put.execution.Runs put.session) :
    Stands next put :=
  ⟨by rw [puts.executions, if_pos rfl], by rw [puts.requests, if_pos rfl],
    by rw [puts.sessions, if_pos rfl], executionActive, requestActive, sessionActive, bound, runs⟩

theorem Fitting.keeps (fitting : Fitting store put) (puts : Puts store next put)
    (stands : Stands store graph)
    (apart : graph.session.name ≠ put.session.name ∨ graph.request.name ≠ put.request.name ∨
      graph.execution.name ≠ put.execution.name) : Stands next graph := by
  have none : ¬(graph.session.name = put.session.name ∨ graph.request.name = put.request.name ∨
      graph.execution.name = put.execution.name) := by
    intro shared
    obtain ⟨sessions, requests, executions⟩ := fitting.shares graph stands shared
    rcases apart with session | request | execution
    · exact session sessions
    · exact request requests
    · exact execution executions
  rw [not_or, not_or] at none
  exact stands.puts puts none.1 none.2.1 none.2.2

theorem TurnsSound.puts (sound : TurnsSound store) (fitting : Fitting store put)
    (puts : Puts store next put) : TurnsSound next := by
  refine ⟨fun name row found => ?_, fun name row found => ?_, fun name row found => ?_,
    fun name row found active => ?_, fun name row found active => ?_,
    fun name row found active => ?_, fun name row found retired => ?_⟩
  · rw [puts.sessions] at found
    split at found
    case isTrue here =>
      cases found
      exact ⟨here.symm, fitting.session⟩
    case isFalse => exact sound.sessionRows name row found
  · rw [puts.requests] at found
    split at found
    case isTrue here =>
      cases found
      exact ⟨here.symm, fitting.request⟩
    case isFalse => exact sound.requestRows name row found
  · rw [puts.executions] at found
    split at found
    case isTrue here =>
      cases found
      exact ⟨here.symm, fitting.execution⟩
    case isFalse => exact sound.executionRows name row found
  · rw [puts.sessions] at found
    split at found
    case isTrue here =>
      cases found
      rcases fitting.states with ⟨executing, requesting, _, runs⟩ | ⟨_, _, idle⟩
      · exact ⟨put, puts.stands executing requesting active fitting.bound runs, rfl⟩
      · rw [idle] at active
        cases active
    case isFalse elsewhere =>
      obtain ⟨graph, stands, rfl⟩ := sound.sessions name row found active
      have names := (sound.sessionRows name _ found).1
      exact ⟨graph, fitting.keeps puts stands (.inl (names ▸ elsewhere)), rfl⟩
  · rw [puts.requests] at found
    split at found
    case isTrue here =>
      cases found
      rcases fitting.states with ⟨executing, _, running, runs⟩ | ⟨_, retired, _⟩
      · exact ⟨put, puts.stands executing active running fitting.bound runs, rfl⟩
      · rw [retired] at active
        cases active
    case isFalse elsewhere =>
      obtain ⟨graph, stands, rfl⟩ := sound.requests name row found active
      have names := (sound.requestRows name _ found).1
      exact ⟨graph, fitting.keeps puts stands (.inr (.inl (names ▸ elsewhere))), rfl⟩
  · rw [puts.executions] at found
    split at found
    case isTrue here =>
      cases found
      rcases fitting.states with ⟨_, requesting, running, runs⟩ | ⟨retired, _, _⟩
      · exact ⟨put, puts.stands active requesting running fitting.bound runs, rfl⟩
      · rw [retired] at active
        cases active
    case isFalse elsewhere =>
      obtain ⟨graph, stands, rfl⟩ := sound.executions name row found active
      have names := (sound.executionRows name _ found).1
      exact ⟨graph, fitting.keeps puts stands (.inr (.inr (names ▸ elsewhere))), rfl⟩
  · rw [puts.requests] at found
    split at found
    case isTrue here =>
      cases found
      rcases fitting.states with ⟨_, requesting, _, _⟩ | ⟨executed, _, _⟩
      · rw [requesting] at retired
        cases retired
      · refine ⟨put.execution, ?_, executed, fitting.bound⟩
        rw [puts.executions, TurnExecution.name, fitting.bound.1, fitting.bound.2.2.2.2, if_pos rfl]
    case isFalse elsewhere =>
      obtain ⟨execution, stored, executed, bound⟩ := sound.retired name row found retired
      refine ⟨execution, ?_, executed, bound⟩
      rw [puts.executions, if_neg fun here => ?_, stored]
      rw [here] at stored
      have names := (sound.requestRows name row found).1
      exact elsewhere (names.symm.trans (fitting.retired execution row stored executed bound))

structure SameTurns (store next : TurnStore) : Prop where
  sessions : ∀ name,
    ((next.sessions.lookup name).map fun row => { row with storageRevision := 0 }) =
      (store.sessions.lookup name).map fun row => { row with storageRevision := 0 }
  requests : ∀ name, next.requests.lookup name = store.requests.lookup name
  executions : ∀ name, next.executions.lookup name = store.executions.lookup name

namespace SameTurns

theorem refl : SameTurns store store := ⟨fun _ => rfl, fun _ => rfl, fun _ => rfl⟩

theorem trans (left : SameTurns store middle) (right : SameTurns middle next) :
    SameTurns store next :=
  ⟨fun name => (right.sessions name).trans (left.sessions name),
    fun name => (right.requests name).trans (left.requests name),
    fun name => (right.executions name).trans (left.executions name)⟩

section

variable (same : SameTurns store next)
include same

theorem symm : SameTurns next store :=
  ⟨fun name => (same.sessions name).symm, fun name => (same.requests name).symm,
    fun name => (same.executions name).symm⟩

theorem session (found : next.sessions.lookup name = some row) :
    ∃ revision, store.sessions.lookup name = some { row with storageRevision := revision } := by
  have equal := same.sessions name
  rw [found] at equal
  cases stored : store.sessions.lookup name with
  | none =>
    rw [stored] at equal
    cases equal
  | some earlier =>
    rw [stored] at equal
    have fields := Option.some.inj equal
    obtain ⟨_, _, _, _, _, revision, _, _, _⟩ := earlier
    cases row
    cases fields
    exact ⟨revision, rfl⟩

theorem stands (stands : Stands next graph) : ∃ revision, Stands store { graph with
      session := { graph.session with storageRevision := revision } } := by
  obtain ⟨revision, found⟩ := same.session stands.session
  exact ⟨revision, (same.executions _).symm.trans stands.execution,
    (same.requests _).symm.trans stands.request, found, stands.executionActive,
    stands.requestActive, stands.sessionActive, stands.bound, stands.runs⟩

theorem sound (sound : TurnsSound store) : TurnsSound next := by
  have graphs : ∀ graph, Stands store graph → ∃ revision, Stands next { graph with
      session := { graph.session with storageRevision := revision } } :=
    fun _ => same.symm.stands
  refine ⟨fun name row found => ?_, fun name row found => ?_, fun name row found => ?_,
    fun name row found active => ?_, fun name row found active => ?_,
    fun name row found active => ?_, fun name row found retired => ?_⟩
  · obtain ⟨revision, stored⟩ := same.session found
    have rows := sound.sessionRows name _ stored
    exact rows
  · rw [same.requests] at found
    exact sound.requestRows name row found
  · rw [same.executions] at found
    exact sound.executionRows name row found
  · obtain ⟨revision, stored⟩ := same.session found
    obtain ⟨graph, standing, own⟩ := sound.sessions name _ stored active
    obtain ⟨revision', stands⟩ := graphs graph standing
    have names := (sound.sessionRows name _ stored).1
    refine ⟨_, stands, ?_⟩
    have here := stands.session
    rw [own, show ({ ({ row with storageRevision := revision } : TurnSession) with
      storageRevision := revision' } : TurnSession).name = name from names, found] at here
    rw [own]
    exact (Option.some.inj here).symm
  · rw [same.requests] at found
    obtain ⟨graph, standing, rfl⟩ := sound.requests name row found active
    obtain ⟨revision, stands⟩ := graphs graph standing
    exact ⟨_, stands, rfl⟩
  · rw [same.executions] at found
    obtain ⟨graph, standing, rfl⟩ := sound.executions name row found active
    obtain ⟨revision, stands⟩ := graphs graph standing
    exact ⟨_, stands, rfl⟩
  · rw [same.requests] at found
    obtain ⟨execution, stored, retired, bound⟩ := sound.retired name row found retired
    exact ⟨execution, (same.executions _).trans stored, retired, bound⟩

end

end SameTurns

open State (Failure)
open TurnStore

variable {name : TurnName}

theorem loadSession_eq (valid : ∀ row ∈ store.sessions.lookup name, row.validate = .ok ()) :
    store.loadSession name = .ok (store.sessions.lookup name) := by
  unfold loadSession
  cases found : store.sessions.lookup name with
  | none => rfl
  | some row =>
    dsimp only
    rw [valid row found]
    rfl

theorem loadRequest_eq (valid : ∀ row ∈ store.requests.lookup name, row.validate = .ok ()) :
    store.loadRequest name = .ok (store.requests.lookup name) := by
  unfold loadRequest
  cases found : store.requests.lookup name with
  | none => rfl
  | some row =>
    dsimp only
    rw [valid row found]
    rfl

theorem loadExecution_eq (valid : ∀ row ∈ store.executions.lookup name, row.validate = .ok ()) :
    store.loadExecution name = .ok (store.executions.lookup name) := by
  unfold loadExecution
  cases found : store.executions.lookup name with
  | none => rfl
  | some row =>
    dsimp only
    rw [valid row found]
    rfl

theorem turnGraph_eq (executionValid : execution.validate = .ok ())
    (requestValid : request.validate = .ok ()) (sessionValid : session.validate = .ok ())
    (executionActive : execution.state = .active) (requestActive : request.state = .active)
    (sessionActive : session.state = .active) (bound : execution.Bound request)
    (runs : execution.Runs session) :
    turnGraph execution request session = .ok ⟨execution, request, session⟩ := by
  have passes : ¬(execution.state ≠ .active ∨ request.state ≠ .active ∨ session.state ≠ .active ∨
      ¬execution.Bound request ∨ ¬execution.Runs session) := by
    rintro (wrong | wrong | wrong | wrong | wrong)
    · exact wrong executionActive
    · exact wrong requestActive
    · exact wrong sessionActive
    · exact wrong bound
    · exact wrong runs
  rw [turnGraph, executionValid, requestValid, sessionValid, ok_bind, ok_bind, ok_bind,
    refuse_of_not passes]
  rfl

section

variable (stands : Stands store graph)
include stands

section

variable (sound : TurnsSound store)
include sound

theorem Stands.graph_eq :
    turnGraph graph.execution graph.request graph.session = .ok graph :=
  turnGraph_eq (sound.executionRows _ _ stands.execution).2
    (sound.requestRows _ _ stands.request).2 (sound.sessionRows _ _ stands.session).2
    stands.executionActive stands.requestActive stands.sessionActive stands.bound stands.runs

theorem Stands.graphAt_eq :
    store.graphAt graph.execution.name graph.request.name graph.session.name = .ok graph := by
  rw [graphAt, stands.execution, stands.request, stands.session]
  exact stands.graph_eq sound

theorem Stands.executionGraph_eq :
    store.executionGraph graph.execution = .ok graph := by
  rw [executionGraph, ← stands.session_name]
  have request : (graph.execution.scope, graph.execution.requestKey) = graph.request.name := by
    rw [stands.request_name, stands.runs.1]
  rw [request]
  exact stands.graphAt_eq sound

theorem Stands.requestGraph_eq :
    store.requestGraph graph.request = .ok graph := by
  have execution : (graph.request.scope, graph.request.executionId) = graph.execution.name := by
    rw [stands.execution_name, ← stands.bound.1, stands.runs.1]
  have session : (graph.request.scope, graph.request.sessionKey) = graph.session.name := by
    rw [stands.session_name, stands.bound.1, stands.bound.2.1]
  rw [requestGraph, execution, session]
  exact stands.graphAt_eq sound

theorem Stands.sessionGraph_eq :
    store.sessionGraph graph.session = .ok graph := by
  have execution : (graph.session.scope, graph.execution.executionId) = graph.execution.name := by
    rw [TurnExecution.name, stands.runs.1]
  rw [sessionGraph, stands.runs.2.2.1, stands.runs.2.2.2.1]
  change store.graphAt (graph.session.scope, graph.execution.executionId)
    (graph.session.scope, graph.execution.requestKey) graph.session.name = _
  rw [execution, ← stands.request_name]
  exact stands.graphAt_eq sound

end

end

theorem requireRetired_eq (sound : TurnsSound store) (found : store.requests.lookup name = some row)
    (retired : row.state = .retired) : store.requireRetired row = .ok () := by
  obtain ⟨execution, stored, executed, bound⟩ := sound.retired name row found retired
  have passes : ¬(execution.state ≠ .retired ∨ ¬execution.Bound row) := by
    rintro (wrong | wrong)
    · exact wrong executed
    · exact wrong bound
  rw [requireRetired, loadExecution_eq fun row found => (sound.executionRows _ row found).2, stored]
  exact refuse_of_not passes

variable {row : TurnSession}

theorem TurnSession.validate_ok :
    row.validate = .ok () ↔ row.scope ≠ "" ∧ row.sessionKey ≠ "" ∧ row.executionId ≠ some "" ∧
      row.requestKey ≠ some "" ∧ row.Fits := by
  simp only [validate, requireStored, bind_eq_ok, refuse_eq_ok, not_or, not_not]
  constructor
  · rintro ⟨_, scope, _, key, _, ⟨execution, request⟩, fits⟩
    exact ⟨scope, key, execution, request, fits⟩
  · rintro ⟨scope, key, execution, request, fits⟩
    exact ⟨(), scope, (), key, (), ⟨execution, request⟩, fits⟩

theorem TurnRequest.validate_ok {row : TurnRequest} :
    row.validate = .ok () ↔ row.scope ≠ "" ∧ row.sessionKey ≠ "" ∧ row.requestKey ≠ "" ∧
      row.requestDigest ≠ "" ∧ row.executionId ≠ "" := by
  simp only [validate, requireStored, bind_eq_ok, refuse_eq_ok]
  constructor
  · rintro ⟨_, scope, _, key, _, request, _, digest, execution⟩
    exact ⟨scope, key, request, digest, execution⟩
  · rintro ⟨scope, key, request, digest, execution⟩
    exact ⟨(), scope, (), key, (), request, (), digest, execution⟩

theorem TurnExecution.validate_ok {row : TurnExecution} :
    row.validate = .ok () ↔ (row.scope ≠ "" ∧ row.sessionKey ≠ "" ∧ row.requestKey ≠ "" ∧
      row.requestDigest ≠ "" ∧ row.executionId ≠ "") ∧ row.ownerId ≠ "" ∧ row.token ≠ "" ∧
      row.receiptId ≠ "" ∧ 1 ≤ row.fence ∧ row.Receipted := by
  simp only [validate, requireStored, bind_eq_ok, refuse_eq_ok, not_lt, not_not]
  constructor
  · rintro ⟨_, scope, _, key, _, request, _, digest, _, execution, _, owner, _, token, _, receipt,
      _, fence, receipted⟩
    exact ⟨⟨scope, key, request, digest, execution⟩, owner, token, receipt, fence, receipted⟩
  · rintro ⟨⟨scope, key, request, digest, execution⟩, owner, token, receipt, fence, receipted⟩
    exact ⟨(), scope, (), key, (), request, (), digest, (), execution, (), owner, (), token, (),
      receipt, (), fence, receipted⟩

theorem TurnSession.Fits.of_active (fits : row.Fits)
    (active : row.state = .active) : row.executionId ≠ none ∧ row.requestKey ≠ none ∧
      row.leaseOwner ≠ none ∧ row.leaseOwner ≠ some "" ∧ 1 ≤ row.leaseFence ∧
      row.leaseExpiresAt ≠ none := by
  rw [Fits, active] at fits
  exact fits

theorem TurnSession.Fits.of_idle (fits : row.Fits)
    (idle : row.state = .idle) : row.executionId = none ∧ row.requestKey = none ∧
      row.leaseOwner = none ∧ row.leaseExpiresAt = none := by
  rw [Fits, idle] at fits
  exact fits

def TurnSession.bumped (row : TurnSession) : TurnSession :=
  { row with storageRevision := row.storageRevision + 1 }

theorem transition_eq (found : store.sessions.lookup name = some row)
    (change : LeaseChange) (now : Time) : store.transition name row.storageRevision change now =
      (do match ← change.apply row now with
          | none => return (none, store)
          | some candidate =>
            return (some candidate, { store with
              sessions := store.sessions.insert name candidate })) := by
  rw [transition, found]
  exact if_neg (not_not.mpr rfl)

theorem sameTurns_bumped (found : store.sessions.lookup row.name = some row) :
    SameTurns store { store with sessions := store.sessions.insert row.name row.bumped } := by
  refine ⟨fun other => ?_, fun _ => rfl, fun _ => rfl⟩
  by_cases here : other = row.name
  case pos =>
    rw [here, AList.lookup_insert, found]
    rfl
  case neg => rw [AList.lookup_insert_ne here]

theorem apply_guard (live : row.LiveAt now) :
    LeaseChange.apply ⟨.guard, row.leaseOwner, row.leaseFence, none⟩ row now =
      .ok (some row.bumped) := by
  obtain ⟨owned, expiry, expires, later⟩ := live
  have allowed : ¬LeaseChange.Refuses ⟨.guard, row.leaseOwner, row.leaseFence, none⟩ row now := by
    unfold LeaseChange.Refuses
    simp only [State.LeaseOperation.NeedsAvailable, reduceCtorEq, or_self, if_false, ne_eq,
      not_true_eq_false, false_or]
    rw [Option.mem_def.mp expires]
    simp [owned, later]
  rw [LeaseChange.apply, if_neg (not_not.mpr rfl), if_neg allowed,
    if_pos (show State.LeaseOperation.Guards .guard from .inl rfl)]
  rfl

theorem apply_guard_expired (expired : ¬row.LiveAt now) :
    LeaseChange.apply ⟨.guard, row.leaseOwner, row.leaseFence, none⟩ row now = .ok none := by
  have refused : LeaseChange.Refuses ⟨.guard, row.leaseOwner, row.leaseFence, none⟩ row now := by
    unfold LeaseChange.Refuses
    rw [if_neg (by simp [State.LeaseOperation.NeedsAvailable])]
    by_cases unset : row.leaseExpiresAt = none
    case pos => exact .inr (.inr unset)
    case neg =>
      refine .inl fun live => expired ⟨live.1, ?_⟩
      obtain ⟨expiry, expires⟩ := Option.ne_none_iff_exists'.mp unset
      rw [expires] at live ⊢
      exact ⟨expiry, rfl, of_decide_eq_true live.2⟩
  rw [LeaseChange.apply, if_neg (not_not.mpr rfl), if_pos refused]

theorem TurnSession.available (expired : ¬row.LiveAt now) (fits : row.Fits) :
    ¬(row.leaseOwner ≠ none ∧ row.leaseExpiresAt.all fun expiry => now < expiry) := by
  rintro ⟨owned, running⟩
  cases state : row.state with
  | idle => exact owned (fits.of_idle state).2.2.1
  | active =>
    obtain ⟨expiry, expires⟩ := Option.ne_none_iff_exists'.mp (fits.of_active state).2.2.2.2.2
    rw [expires] at running
    exact expired ⟨owned, expiry, expires, of_decide_eq_true running⟩

theorem TurnSession.LiveAt.mono (live : row.LiveAt now) (ordered : look ≤ now) :
    row.LiveAt look := by
  obtain ⟨owned, expiry, expires, later⟩ := live
  exact ⟨owned, expiry, expires, lt_of_le_of_lt ordered later⟩

theorem apply_guardAvailable (expired : ¬row.LiveAt now) (fits : row.Fits) :
    LeaseChange.apply ⟨.guardAvailable, row.leaseOwner, row.leaseFence, none⟩ row now =
      .ok (some row.bumped) := by
  have allowed :
      ¬LeaseChange.Refuses ⟨.guardAvailable, row.leaseOwner, row.leaseFence, none⟩ row now := by
    unfold LeaseChange.Refuses
    rw [if_pos (show State.LeaseOperation.NeedsAvailable .guardAvailable from .inr rfl)]
    rintro (live | ⟨_, other⟩)
    · exact row.available expired fits live
    · exact other rfl
  rw [LeaseChange.apply, if_neg (not_not.mpr rfl), if_neg allowed,
    if_pos (show State.LeaseOperation.Guards .guardAvailable from .inr rfl)]
  rfl

theorem guardSession_cases (found : store.sessions.lookup row.name = some row) (fits : row.Fits)
    (ordered : look ≤ now) : store.guardSession row look now = .error .conflict ∨
      store.guardSession row look now = .ok (⟨row.bumped, decide (row.LiveAt look)⟩,
        { store with sessions := store.sessions.insert row.name row.bumped }) := by
  unfold guardSession
  dsimp only
  rw [transition_eq found]
  by_cases live : row.LiveAt look
  case pos =>
    rw [decide_eq_true live, if_pos rfl]
    by_cases still : row.LiveAt now
    case pos =>
      rw [apply_guard still]
      exact .inr rfl
    case neg =>
      rw [apply_guard_expired still]
      exact .inl rfl
  case neg =>
    rw [decide_eq_false live, if_neg Bool.false_ne_true,
      apply_guardAvailable (fun later => live (later.mono ordered)) fits]
    exact .inr rfl

theorem replaceExecution_eq {row current : TurnExecution}
    (found : store.executions.lookup row.name = some current) :
    store.replaceExecution row current.storageRevision =
      .ok { store with executions := store.executions.insert row.name row } := by
  rw [replaceExecution, found, refuse_of_not fun different => different rfl]
  rfl

theorem replaceRequest_eq {row current : TurnRequest}
    (found : store.requests.lookup row.name = some current) :
    store.replaceRequest row current.storageRevision =
      .ok { store with requests := store.requests.insert row.name row } := by
  rw [replaceRequest, found, refuse_of_not fun different => different rfl]
  rfl

theorem replaceSession_eq {row current : TurnSession}
    (found : store.sessions.lookup row.name = some current) :
    store.replaceSession row current.storageRevision =
      .ok { store with sessions := store.sessions.insert row.name row } := by
  rw [replaceSession, found, refuse_of_not fun different => different rfl]
  rfl

theorem insertExecution_eq {row : TurnExecution}
    (free : store.executions.lookup row.name = none) : store.insertExecution row =
      .ok { store with executions := store.executions.insert row.name row } := by
  rw [insertExecution, refuse_of_not fun taken => taken free]
  rfl

theorem insertRequest_eq {row : TurnRequest} (free : store.requests.lookup row.name = none) :
    store.insertRequest row =
      .ok { store with requests := store.requests.insert row.name row } := by
  rw [insertRequest, refuse_of_not fun taken => taken free]
  rfl

theorem insertSession_eq {row : TurnSession} (free : store.sessions.lookup row.name = none) :
    store.insertSession row =
      .ok { store with sessions := store.sessions.insert row.name row } := by
  rw [insertSession, refuse_of_not fun taken => taken free]
  rfl

def TurnGraph.retired (graph : TurnGraph) (receipt : String) (kind : ReceiptKind) : TurnGraph :=
  ⟨graph.retiredExecution receipt kind, graph.retiredRequest, graph.retiredSession⟩

theorem insert_lookup {Row : Type} {table : Table TurnName Row} {key other : TurnName} {row : Row} :
    (table.insert key row).lookup other = if other = key then some row else table.lookup other := by
  by_cases here : other = key
  case pos => rw [if_pos here, here, AList.lookup_insert]
  case neg => rw [if_neg here, AList.lookup_insert_ne here]

variable {receipt : String} {kind : ReceiptKind}

theorem Stands.retired_fitting (stands : Stands store graph) (sound : TurnsSound store)
    (received : receipt ≠ "") (ends : kind = .release ∨ kind = .expire) :
    Fitting store (graph.retired receipt kind) := by
  have execution := TurnExecution.validate_ok.mp (sound.executionRows _ _ stands.execution).2
  have request := TurnRequest.validate_ok.mp (sound.requestRows _ _ stands.request).2
  have session := TurnSession.validate_ok.mp (sound.sessionRows _ _ stands.session).2
  refine ⟨TurnExecution.validate_ok.mpr ⟨execution.1, execution.2.1, execution.2.2.1, received,
    execution.2.2.2.2.1, ?_⟩, TurnRequest.validate_ok.mpr request,
    TurnSession.validate_ok.mpr ⟨session.1, session.2.1, nofun, nofun, rfl, rfl, rfl, rfl⟩,
    stands.bound, .inr ⟨rfl, rfl, rfl⟩, fun other standing shared => ?_,
    fun other row stored retired _ => ?_⟩
  · refine ⟨nofun, fun _ => ?_, fun cancel => ?_, fun claim => ?_⟩
    · rcases ends with rfl | rfl
      · exact List.mem_cons_self
      · exact List.mem_cons_of_mem _ List.mem_cons_self
    · rcases ends with rfl | rfl <;> cases cancel
    · rcases ends with rfl | rfl <;> cases claim
  · rcases shared with same | same | same
    · rw [standing.eq_of_session stands same]
      exact ⟨rfl, rfl, rfl⟩
    · rw [standing.eq_of_request stands same]
      exact ⟨rfl, rfl, rfl⟩
    · rw [standing.eq_of_execution stands same]
      exact ⟨rfl, rfl, rfl⟩
  · have same : store.executions.lookup graph.execution.name = some other := stored
    rw [stands.execution] at same
    cases same
    rw [stands.executionActive] at retired
    cases retired

theorem retire_eq (stands : Stands store graph) (sound : TurnsSound store) (received : receipt ≠ "")
    (ends : kind = .release ∨ kind = .expire) : ∃ next, store.retire graph receipt kind = .ok next ∧
      Puts store next (graph.retired receipt kind) := by
  have fitting := stands.retired_fitting sound received ends
  refine ⟨{
    sessions := store.sessions.insert graph.session.name graph.retiredSession
    requests := store.requests.insert graph.request.name graph.retiredRequest
    executions := store.executions.insert graph.execution.name
      (graph.retiredExecution receipt kind) }, ?_, fun _ => insert_lookup, fun _ => insert_lookup,
    fun _ => insert_lookup⟩
  have execution : store.executions.lookup (graph.retiredExecution receipt kind).name =
      some graph.execution := stands.execution
  have request : store.requests.lookup graph.retiredRequest.name = some graph.request :=
    stands.request
  have session : store.sessions.lookup graph.retiredSession.name = some graph.session :=
    stands.session
  have executed := replaceExecution_eq execution
  have requested := @replaceRequest_eq { store with
    executions := store.executions.insert graph.execution.name
      (graph.retiredExecution receipt kind) } _ _ request
  have left := @replaceSession_eq { store with
    executions := store.executions.insert graph.execution.name (graph.retiredExecution receipt kind)
    requests := store.requests.insert graph.request.name graph.retiredRequest } _ _ session
  exact bind_eq_ok.mpr ⟨_, fitting.execution, bind_eq_ok.mpr ⟨_, fitting.request,
    bind_eq_ok.mpr ⟨_, fitting.session, bind_eq_ok.mpr ⟨_, executed,
      bind_eq_ok.mpr ⟨_, requested, left⟩⟩⟩⟩⟩

end Linktools.Turn
