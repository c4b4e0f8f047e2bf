import Linktools.Library.Machine
import Linktools.Turn.Ledger

namespace Linktools.Turn

open Linktools.Core Library
open State (Failure)

variable {store next : TurnStore} {graph : TurnGraph} {row : TurnExecution} {now later : Time}
  {id : String} {instants : TurnInstants} {operation : TurnOperation} {answer : TurnAnswer}

/-- An execution owns its session, its request and itself at an instant. -/
structure TurnStore.Live (store : TurnStore) (now : Time) (row : TurnExecution) : Prop where
  stored : store.executions.lookup row.name = some row
  active : row.state = .active
  running : ∃ session ∈ store.sessions.lookup (row.scope, row.sessionKey), session.LiveAt now

namespace TurnStore.Live

theorem of_stands (stands : Stands store graph) (live : graph.session.LiveAt now) :
    store.Live now graph.execution := by
  refine ⟨stands.execution, stands.executionActive, graph.session, ?_, live⟩
  rw [← stands.session_name]
  exact stands.session

theorem stands (live : store.Live now row) (sound : TurnsSound store) :
    ∃ graph, Stands store graph ∧ graph.execution = row ∧ graph.session.LiveAt now := by
  obtain ⟨graph, stands, rfl⟩ := sound.executions _ row live.stored live.active
  obtain ⟨session, found, running⟩ := live.running
  rw [← stands.session_name, stands.session] at found
  cases found
  exact ⟨graph, stands, rfl, running⟩

theorem mono (live : store.Live later row) (ordered : now ≤ later) : store.Live now row := by
  obtain ⟨session, found, running⟩ := live.running
  exact ⟨live.stored, live.active, session, found, running.mono ordered⟩

theorem exclusive (left : store.Live now row)
    (right : store.Live now other) (sound : TurnsSound store) (scope : row.scope = other.scope)
    (shared : row.sessionKey = other.sessionKey ∨ row.requestKey = other.requestKey ∨
      row.executionId = other.executionId) : row = other := by
  obtain ⟨graph, stands, rfl, _⟩ := left.stands sound
  obtain ⟨graph', stands', rfl, _⟩ := right.stands sound
  have same : graph = graph' := by
    rcases shared with session | request | execution
    · apply stands.eq_of_session stands'
      rw [stands.session_name, stands'.session_name, scope, session]
    · apply stands.eq_of_request stands'
      rw [stands.request_name, stands'.request_name, ← stands.runs.1, ← stands'.runs.1, scope,
        request]
    · exact stands.eq_of_execution stands' (Prod.ext scope execution)
  rw [same]

end TurnStore.Live

theorem live_of_same (same : SameTurns store next) (live : next.Live now row) :
    store.Live now row := by
  obtain ⟨session, found, running⟩ := live.running
  obtain ⟨_, stored⟩ := same.session found
  exact ⟨(same.executions _).symm.trans live.stored, live.active, _, stored, running⟩

theorem live_of_retired (sound : TurnsSound next) (puts : Puts store next (graph.retired id kind))
    (live : next.Live now row) : store.Live now row := by
  obtain ⟨standing, stands, rfl, running⟩ := live.stands sound
  exact .of_stands (stands.before_retired puts).1 running

theorem live_of_expires (expires : Expires later id store next) (received : id ≠ "")
    (sound : TurnsSound store) (live : next.Live now row) : store.Live now row := by
  obtain ⟨graph, stands, rfl, running⟩ := live.stands (expires.sound received sound)
  obtain ⟨_, stood⟩ := expires.stood stands
  have before := TurnStore.Live.of_stands stood running
  exact before

theorem live_of_receipted (stands : Stands store graph) (running : graph.session.LiveAt now)
    (sound : TurnsSound next) (puts : Puts store next (graph.receipted duration now id kind))
    (live : next.Live later row) (ordered : now ≤ later) :
    ∃ earlier, store.Live now earlier ∧ earlier.lease = row.lease := by
  by_cases here : row.name = graph.execution.name
  case pos =>
    have put := puts.execution_at here.symm
    have same := Option.some.inj (put.symm.trans live.stored)
    have leases : (graph.receipted duration now id kind).execution.lease = row.lease :=
      congrArg TurnExecution.lease same
    exact ⟨graph.execution, .of_stands stands running, leases⟩
  case neg =>
    obtain ⟨other, standing, rfl, runs⟩ := live.stands sound
    have named := (graph.session.changed_fields duration now).1
    have apart : other.session.name ≠ graph.session.name := by
      intro same
      have stored := standing.session
      have putsHere : next.sessions.lookup graph.session.name =
          some (graph.receipted duration now id kind).session := puts.session_at named
      rw [same, putsHere] at stored
      have execution := standing.runs.2.2.2.1
      have changed := (graph.session.changed_fields duration now).2.2.2.1
      rw [← Option.some.inj stored] at execution
      have ids : some graph.execution.executionId = some other.execution.executionId :=
        stands.runs.2.2.2.1.symm.trans (changed.symm.trans execution)
      have scopes : other.execution.scope = graph.execution.scope := by
        rw [standing.runs.1, stands.runs.1]
        exact (Prod.mk.inj same).1
      exact here (Prod.ext scopes (Option.some.inj ids).symm)
    have execution := standing.execution
    rw [puts.execution_ne here] at execution
    have session := standing.session
    rw [puts.sessions, if_neg fun same => apart (same.trans named)] at session
    refine ⟨other.execution, ⟨execution, standing.executionActive, other.session, ?_,
      runs.mono ordered⟩, rfl⟩
    rw [← standing.session_name]
    exact session

theorem TurnEnds.live_before (sound : TurnsSound store) (received : id ≠ "")
    (ends : TurnEnds store id instants operation (.ok (answer, next))) (soundNext : TurnsSound next)
    (live : next.Live later row) (ordered : instants.change ≤ later) :
    (∃ earlier, store.Live instants.change earlier ∧ earlier.lease = row.lease) ∨
      row.token = id := by
  cases ends with
  | observed same _ => exact .inl ⟨row, (live_of_same same live).mono ordered, rfl⟩
  | missed => exact .inl ⟨row, live.mono ordered, rfl⟩
  | @granted claim middle _ put duration execution request session expires formed free rows puts =>
    by_cases here : row.name = put.execution.name
    case pos =>
      have stored := live.stored
      rw [puts.executions, if_pos here, rows] at stored
      exact .inr (congrArg TurnExecution.token (Option.some.inj stored)).symm
    case neg =>
      have soundMiddle := expires.sound received sound
      have stored := live.stored
      rw [puts.executions, if_neg here] at stored
      obtain ⟨graph, stands, own⟩ := soundMiddle.executions _ row stored live.active
      have fitting := formed.fitting free soundMiddle received
        (Nat.le_add_left 1 (store.fence claim.session)) (instants.change + duration) execution
        request session
      rw [← rows] at fitting
      have apart : graph.execution.name ≠ put.execution.name := own ▸ here
      have kept := fitting.keeps puts stands (.inr (.inr apart))
      obtain ⟨graph', stands', same, running⟩ := live.stands soundNext
      have equal := kept.eq_of_execution stands' (by rw [own, same])
      refine .inl ⟨row, live_of_expires expires received sound ?_, rfl⟩
      rw [← own]
      exact .of_stands stands ((equal ▸ running).mono ordered)
  | renewed _ reached puts =>
    exact .inl (live_of_receipted reached.stands reached.live soundNext puts live ordered)
  | cancelled reached puts =>
    exact .inl (live_of_receipted reached.stands reached.live soundNext puts live ordered)
  | released _ _ same _ puts =>
    have before := live_of_same same (live_of_retired soundNext puts live)
    exact .inl ⟨row, before.mono ordered, rfl⟩

variable {name : TurnName}

theorem Puts.record_kept (puts : Puts middle next put)
    (stored : middle.executions.lookup put.execution.name = some graph.execution)
    (same : SameRecord graph.execution put.execution)
    (found : middle.executions.lookup name = some row) :
    ∃ kept, next.executions.lookup name = some kept ∧ SameRecord row kept := by
  rw [puts.executions]
  by_cases here : name = put.execution.name
  case pos =>
    rw [here, stored] at found
    cases found
    exact ⟨_, if_pos here, same⟩
  case neg => exact ⟨row, (if_neg here).trans found, .refl⟩

section

variable (sound : TurnsSound store)
include sound

theorem TurnEnds.records (received : id ≠ "")
    (ends : TurnEnds store id instants operation (.ok (answer, next)))
    (found : store.executions.lookup name = some row) :
    ∃ kept, next.executions.lookup name = some kept ∧ SameRecord row kept := by
  cases ends with
  | observed same _ => exact ⟨row, (same.executions name).trans found, .refl⟩
  | missed => exact ⟨row, found, .refl⟩
  | @granted claim middle _ put _ _ _ _ expires formed free rows puts =>
    obtain ⟨earlier, stored, same, _⟩ := exists_right_of_rel expires.execution found
    rw [puts.executions]
    by_cases here : name = put.execution.name
    case neg =>
      rw [if_neg here]
      exact ⟨earlier, stored, same⟩
    case pos =>
      have named : name = claim.execution := by
        rw [here, rows]
        rfl
      rw [named] at stored
      have own : earlier.name = claim.execution :=
        ((expires.sound received sound).executionRows _ earlier stored).1
      have agrees := (free.execution earlier stored).2
      simp only [TurnClaim.Disagrees, not_or, not_not] at agrees
      obtain ⟨session, request, digest, _⟩ := agrees
      rw [if_pos here]
      refine ⟨put.execution, rfl, same.trans ?_⟩
      rw [rows]
      exact ⟨(Prod.mk.inj own).1.symm, session.symm, request.symm, digest.symm,
        (Prod.mk.inj own).2.symm⟩
  | @renewed _ _ _ graph _ _ _ reached puts =>
    exact puts.record_kept reached.stands.execution ⟨rfl, rfl, rfl, rfl, rfl⟩ found
  | @cancelled _ _ graph _ reached puts =>
    exact puts.record_kept reached.stands.execution ⟨rfl, rfl, rfl, rfl, rfl⟩ found
  | @released _ _ graph middle _ _ reached same _ puts =>
    exact puts.record_kept ((same.executions _).trans reached.stands.execution)
      ⟨rfl, rfl, rfl, rfl, rfl⟩ ((same.executions name).trans found)

theorem validateEdges_eq (stands : Stands store graph) :
    store.validateEdges (some graph.execution) = .ok () := by
  have request : (graph.execution.scope, graph.execution.requestKey) = graph.request.name := by
    rw [stands.request_name, stands.runs.1]
  have requested : orRaise (store.requests.lookup
      (graph.execution.scope, graph.execution.requestKey)) integrity = .ok graph.request := by
    rw [request, stands.request]
    rfl
  have sessions : orRaise (store.sessions.lookup
      (graph.execution.scope, graph.execution.sessionKey)) integrity = .ok graph.session := by
    rw [← stands.session_name, stands.session]
    rfl
  exact bind_eq_ok.mpr ⟨_, rfl, bind_eq_ok.mpr ⟨_, requested, bind_eq_ok.mpr ⟨_, sessions,
    bind_eq_ok.mpr ⟨_, stands.graph_eq sound, rfl⟩⟩⟩⟩

theorem validateSession_eq (found : store.sessions.lookup name = some session) :
    store.validateSession session = .ok () := by
  unfold TurnStore.validateSession
  cases state : session.state with
  | idle => rfl
  | active =>
    obtain ⟨graph, stands, rfl⟩ := sound.sessions name session found state
    have execution : (graph.session.scope, graph.execution.executionId) = graph.execution.name :=
      Prod.ext stands.runs.1.symm rfl
    refine bind_eq_ok.mpr ⟨graph.execution.executionId, ?_, ?_⟩
    · rw [stands.runs.2.2.2.1]
      rfl
    · rw [execution, stands.execution]
      exact validateEdges_eq sound stands

theorem validateRequest_eq (found : store.requests.lookup name = some request) :
    store.validateRequest request = .ok () := by
  unfold TurnStore.validateRequest
  cases state : request.state with
  | active =>
    obtain ⟨graph, stands, rfl⟩ := sound.requests name request found state
    have execution : (graph.request.scope, graph.request.executionId) = graph.execution.name :=
      Prod.ext stands.bound.1.symm stands.bound.2.2.2.2.symm
    dsimp only
    rw [execution, stands.execution]
    exact validateEdges_eq sound stands
  | retired =>
    obtain ⟨execution, stored, retired, bound⟩ := sound.retired name request found state
    dsimp only
    rw [stored]
    exact refuse_of_not fun wrong => wrong.elim (· retired) (· bound)

theorem validateExecution_eq
    (found : store.executions.lookup name = some row) : store.validateExecution row = .ok () := by
  unfold TurnStore.validateExecution
  cases state : row.state with
  | retired => rfl
  | active =>
    obtain ⟨graph, stands, rfl⟩ := sound.executions name row found state
    exact validateEdges_eq sound stands

theorem TurnsSound.validated : store.validate = .ok () := by
  refine bind_eq_ok.mpr ⟨(), forM_eq_ok.mpr fun entry member => ?_, bind_eq_ok.mpr ⟨(),
    forM_eq_ok.mpr fun entry member => ?_, bind_eq_ok.mpr ⟨(),
    forM_eq_ok.mpr fun entry member => ?_, bind_eq_ok.mpr ⟨(),
    forM_eq_ok.mpr fun entry member => ?_, bind_eq_ok.mpr ⟨(),
    forM_eq_ok.mpr fun entry member => ?_, forM_eq_ok.mpr fun entry member => ?_⟩⟩⟩⟩⟩
  · exact (sound.sessionRows _ _ (Table.mem_items.mp member)).2
  · exact (sound.requestRows _ _ (Table.mem_items.mp member)).2
  · exact (sound.executionRows _ _ (Table.mem_items.mp member)).2
  · exact validateSession_eq sound (Table.mem_items.mp member)
  · exact validateRequest_eq sound (Table.mem_items.mp member)
  · exact validateExecution_eq sound (Table.mem_items.mp member)

end

structure TurnCall where
  operation : TurnOperation
  id : String
  instants : TurnInstants

/-- A store with the leases that it granted, the newest first, and those that were cancelled. -/
structure TurnHistory where
  store : TurnStore := {}
  clock : Time
  issued : List String := []
  grants : List (TurnName × TurnLease) := []
  cancelled : List TurnLease := []

def TurnOperation.grants : TurnOperation → TurnAnswer → List (TurnName × TurnLease)
  | .claim asked, .turn (some coordination) =>
    (coordination.lease.map fun lease => (asked.session, lease)).toList
  | _, _ => []

def TurnOperation.cancels (store : TurnStore) : TurnOperation → TurnAnswer → List TurnLease
  | .cancel scope executionId, .flag true =>
    ((store.executions.lookup (scope, executionId)).map (·.lease)).toList
  | _, _ => []

namespace TurnHistory

variable (history : TurnHistory) (call : TurnCall)

def perform : Except Failure (TurnAnswer × TurnStore) :=
  history.store.perform call.operation call.id call.instants

def respond : TurnHistory :=
  match history.perform call with
  | .error _ => history
  | .ok (answer, store) =>
    { store
      clock := call.instants.change
      issued := call.id :: history.issued
      grants := call.operation.grants answer ++ history.grants
      cancelled := call.operation.cancels history.store answer ++ history.cancelled }

/-- A call draws a fresh identifier and reads a clock that does not go back. -/
structure Permits : Prop where
  drawn : call.id ≠ ""
  fresh : call.id ∉ history.issued
  ordered : call.instants.Ordered history.clock

def Ended (lease : TurnLease) : Prop :=
  ∀ row, history.store.Live history.clock row → row.lease ≠ lease

end TurnHistory

def turnMachine : Machine TurnHistory TurnCall where
  initial history := history = { clock := history.clock }
  step history call last := history.Permits call ∧ last = history.respond call

variable {history last : TurnHistory} {call : TurnCall} {calls : List TurnCall} {lease : TurnLease}

def TurnHistory.Kept (history : TurnHistory) : Prop :=
  Ledger history.store history.issued history.grants history.cancelled

theorem perform_call_ends (kept : history.Kept) (permits : history.Permits call) :
    TurnEnds history.store call.id call.instants call.operation (history.perform call) :=
  perform_ends kept.sound permits.drawn permits.ordered call.operation

theorem TurnInstants.Ordered.change (ordered : instants.Ordered clock) : clock ≤ instants.change :=
  (ordered.own.1.trans ordered.own.2.1).trans ordered.own.2.2

theorem respond_of_error (failed : history.perform call = .error error) :
    history.respond call = history := by
  rw [TurnHistory.respond, failed]

theorem respond_of_ok (done : history.perform call = .ok (answer, next)) : history.respond call =
      { store := next
        clock := call.instants.change
        issued := call.id :: history.issued
        grants := call.operation.grants answer ++ history.grants
        cancelled := call.operation.cancels history.store answer ++ history.cancelled } := by
  rw [TurnHistory.respond, done]

theorem ledger_of_ends (ledger : Ledger store issued grants cancelled) (drawn : id ≠ "")
    (fresh : id ∉ issued) (ends : TurnEnds store id instants operation (.ok (answer, next))) :
    Ledger next (id :: issued) (operation.grants answer ++ grants)
      (operation.cancels store answer ++ cancelled) := by
  have older := ledger.issue id
  have known : id ∈ id :: issued := List.mem_cons_self
  cases ends with
  | @observed _ shown _ same unowned =>
    cases shown with
    | none => exact older.same same
    | some coordination =>
      rw [TurnOperation.grants, unowned coordination rfl]
      exact older.same same
  | @granted claim middle _ put duration execution request session expires formed free rows puts =>
    have settled := older.expires expires drawn known
    have fence := expires.fence claim.session
    rw [← fence] at rows
    exact settled.grant formed free drawn known
      (fun lease member same => fresh (same ▸ ledger.cancelled lease member)) rows puts
  | @missed operation changes _ =>
    cases operation with
    | claim claim => exact absurd rfl (changes claim)
    | renew => exact older
    | release => exact older
    | cancel => exact older
  | renewed _ reached puts => exact older.receipt reached.stands puts (.inl rfl) drawn known
  | @cancelled scope executionId graph _ reached puts =>
    have marked : TurnOperation.cancels store (.cancel scope executionId) (.flag true) =
        [graph.execution.lease] := by
      rw [TurnOperation.cancels, ← reached.named, reached.stands.execution]
      rfl
    rw [marked]
    exact older.receipt reached.stands puts (.inr rfl) drawn known
  | released _ _ same stands puts =>
    exact (older.same same).retire stands puts (.inl rfl) drawn known

theorem respond_kept (kept : history.Kept) (permits : history.Permits call) :
    (history.respond call).Kept := by
  have ends := perform_call_ends kept permits
  cases done : history.perform call with
  | error error =>
    rw [respond_of_error done]
    exact kept
  | ok outcome =>
    rw [done] at ends
    rw [respond_of_ok done]
    exact ledger_of_ends kept permits.drawn permits.fresh ends

theorem reachable_kept (reachable : turnMachine.Reachable history) : history.Kept := by
  apply reachable.invariant
  · intro first start
    rw [show first = { clock := first.clock } from start]
    exact Ledger.start
  · rintro first call last _ kept ⟨permits, rfl⟩
    exact respond_kept kept permits

theorem respond_ended (kept : history.Kept) (permits : history.Permits call)
    (issued : lease.token ∈ history.issued) (ended : history.Ended lease) :
    (history.respond call).Ended lease := by
  have ends := perform_call_ends kept permits
  cases done : history.perform call with
  | error error =>
    rw [respond_of_error done]
    exact ended
  | ok outcome =>
    have settled := respond_kept kept permits
    rw [respond_of_ok done] at settled ⊢
    rw [done] at ends
    intro row live same
    rcases ends.live_before kept.sound permits.drawn settled.sound live le_rfl with
      ⟨earlier, before, leases⟩ | drawn
    · exact ended earlier (before.mono permits.ordered.change) (leases.trans same)
    · rw [← same, show row.lease.token = row.token from rfl, drawn] at issued
      exact permits.fresh issued

theorem leaseIdentity_key (identified : TurnStore.leaseIdentity lease = some name) :
    lease.key = .turn name.1 name.2 := by
  unfold TurnStore.leaseIdentity at identified
  split at identified
  case isTrue => cases identified
  case isFalse =>
    cases key : lease.key with
    | foreign text =>
      rw [key] at identified
      cases identified
    | turn =>
      rw [key] at identified
      dsimp only at identified
      split at identified
      case isTrue => cases identified
      case isFalse =>
        cases identified
        rfl

theorem Reached.lease_eq (reached : Reached store name (some lease) now graph)
    (identified : TurnStore.leaseIdentity lease = some name) : graph.execution.lease = lease := by
  obtain ⟨token, fence⟩ := reached.held lease rfl
  have key : LeaseKey.turn graph.execution.scope graph.execution.executionId = lease.key := by
    rw [leaseIdentity_key identified, ← reached.named]
    rfl
  exact congrArg₂ (fun key rest => TurnLease.mk key rest.1 rest.2) key
    (Prod.ext fence token :
      (graph.execution.fence, graph.execution.token) = (lease.fence, lease.token))

def TurnOperation.Under (lease : TurnLease) : TurnOperation → Prop
  | .renew own _ => own = lease
  | .release own => own = lease
  | _ => False

theorem ended_lease_is_refused (kept : history.Kept) (permits : history.Permits call)
    (ended : history.Ended lease) (under : call.operation.Under lease) :
    (∃ error, history.perform call = .error error) ∨
      history.perform call = .ok (call.operation.missed, history.store) := by
  have ends := perform_call_ends kept permits
  have gone : ∀ name graph, TurnStore.leaseIdentity lease = some name →
      ¬Reached history.store name (some lease) call.instants.change graph := by
    intro name graph identified reached
    have live := TurnStore.Live.of_stands reached.stands reached.live
    exact ended _ (live.mono permits.ordered.change) (reached.lease_eq identified)
  obtain ⟨operation, id, instants⟩ := call
  generalize history.perform ⟨operation, id, instants⟩ = outcome at ends ⊢
  cases ends with
  | denied => exact .inl ⟨_, rfl⟩
  | missed => exact .inr rfl
  | observed => cases under
  | granted => cases under
  | cancelled => cases under
  | renewed identified reached =>
    cases under
    exact absurd reached (gone _ _ identified)
  | released identified reached =>
    cases under
    exact absurd reached (gone _ _ identified)

theorem release_ends_lease (kept : history.Kept) (permits : history.Permits call)
    (releases : call.operation = .release lease)
    (done : history.perform call = .ok (.flag true, next)) :
    ∀ row, next.Live call.instants.change row → row.lease ≠ lease := by
  have ends := perform_call_ends kept permits
  have settled := respond_kept kept permits
  rw [respond_of_ok done] at settled
  rw [done] at ends
  obtain ⟨operation, id, instants⟩ := call
  cases releases
  cases ends with
  | @released _ name graph middle _ identified reached same stands puts =>
    intro row live leases
    have key : LeaseKey.turn row.scope row.executionId =
        .turn graph.execution.scope graph.execution.executionId := by
      rw [show LeaseKey.turn row.scope row.executionId = row.lease.key from rfl, leases,
        ← reached.lease_eq identified]
      rfl
    have named : row.name = graph.execution.name :=
      Prod.ext (LeaseKey.turn.inj key).1 (LeaseKey.turn.inj key).2
    have stored := puts.execution_at named.symm
    rw [live.stored] at stored
    rw [show row = _ from Option.some.inj stored] at live
    exact nomatch live.active

theorem grant_is_fresh (kept : history.Kept) (permits : history.Permits call)
    (claims : call.operation = .claim claim)
    (done : history.perform call = .ok (.turn (some coordination), next))
    (owned : coordination.lease = some lease) :
    coordination.cancelRequested = false ∧ lease ∉ history.cancelled ∧
      ∀ grant ∈ history.grants, grant.1 = claim.session → grant.2.fence < lease.fence := by
  have ends := perform_call_ends kept permits
  rw [done] at ends
  obtain ⟨operation, id, instants⟩ := call
  cases claims
  cases ends with
  | observed _ unowned => exact nomatch owned.symm.trans (unowned coordination rfl)
  | granted expires formed free rows puts =>
    subst rows
    cases owned
    refine ⟨rfl, fun member => permits.fresh (kept.cancelled _ member), fun grant member same => ?_⟩
    have bounded := (kept.fences grant member).1
    rw [same] at bounded
    exact Nat.lt_succ_of_le bounded

theorem TurnEnds.not_integrity (ends : TurnEnds store id instants operation outcome) :
    outcome ≠ .error integrity := by
  rintro rfl
  cases ends with
  | denied denied => exact denied.not_integrity rfl

/-- The executions of one history are in the other, recorded for the same. -/
def TurnHistory.Records (history last : TurnHistory) : Prop :=
  ∀ name row, history.store.executions.lookup name = some row →
    ∃ later, last.store.executions.lookup name = some later ∧ SameRecord row later

theorem respond_records (kept : history.Kept) (permits : history.Permits call) :
    history.Records (history.respond call) := by
  intro name row found
  have ends := perform_call_ends kept permits
  cases done : history.perform call with
  | error error =>
    rw [respond_of_error done]
    exact ⟨row, found, .refl⟩
  | ok outcome =>
    rw [respond_of_ok done]
    rw [done] at ends
    exact ends.records kept.sound permits.drawn found

theorem run_records (reachable : turnMachine.Reachable history)
    (run : Machine.Run turnMachine history calls last) : history.Records last := by
  refine run.relates (fun _ _ row found => ⟨row, found, .refl⟩) ?_ ?_ reachable
  · intro first middle last left right name row found
    obtain ⟨between, stored, same⟩ := left name row found
    obtain ⟨later, stored', same'⟩ := right name between stored
    exact ⟨later, stored', same.trans same'⟩
  · rintro first call last reachable ⟨permits, rfl⟩
    exact respond_records (reachable_kept reachable) permits

theorem respond_issued (known : text ∈ history.issued) : text ∈ (history.respond call).issued := by
  cases done : history.perform call with
  | error error => rwa [respond_of_error done]
  | ok outcome =>
    rw [respond_of_ok done]
    exact List.mem_cons_of_mem _ known

theorem run_ended (reachable : turnMachine.Reachable history)
    (run : Machine.Run turnMachine history calls last) (issued : lease.token ∈ history.issued)
    (ended : history.Ended lease) : last.Ended lease := by
  have settled : lease.token ∈ last.issued ∧ last.Ended lease := by
    refine @Machine.Run.preserves _ _ _ (fun history =>
      lease.token ∈ history.issued ∧ history.Ended lease) ?_ _ _ _ reachable ⟨issued, ended⟩ run
    rintro first call last reachable ⟨issued, ended⟩ ⟨permits, rfl⟩
    exact ⟨respond_issued issued, respond_ended (reachable_kept reachable) permits issued ended⟩
  exact settled.2

/-- Admissions are exclusive, fenced and lasting through every order of calls. -/
theorem durable_admissions_are_fenced (history : TurnHistory)
    (reachable : turnMachine.Reachable history) : history.store.validate = .ok () ∧
      (∀ now left right, history.store.Live now left → history.store.Live now right →
        left.scope = right.scope →
        left.sessionKey = right.sessionKey ∨ left.requestKey = right.requestKey ∨
          left.executionId = right.executionId → left = right) ∧
      (history.grants.Pairwise fun newer older =>
        newer.1 = older.1 → older.2.fence < newer.2.fence) ∧
      (∀ name row, history.store.executions.lookup name = some row → row.state = .active →
        (row.cancelRequested = true ↔ row.lease ∈ history.cancelled)) ∧
      (∀ call, history.Permits call → history.perform call ≠ .error integrity ∧
        (∀ claim coordination lease next, call.operation = .claim claim →
          history.perform call = .ok (.turn (some coordination), next) →
          coordination.lease = some lease →
          coordination.cancelRequested = false ∧ lease ∉ history.cancelled ∧
            ∀ grant ∈ history.grants, grant.1 = claim.session → grant.2.fence < lease.fence) ∧
        ∀ lease next, call.operation = .release lease →
          history.perform call = .ok (.flag true, next) → (history.respond call).Ended lease) ∧
      ∀ calls last, Machine.Run turnMachine history calls last →
        (∀ name row, history.store.executions.lookup name = some row →
          ∃ later, last.store.executions.lookup name = some later ∧ SameRecord row later) ∧
        ∀ grant ∈ history.grants, history.Ended grant.2 → last.Ended grant.2 ∧
          ∀ call, last.Permits call → call.operation.Under grant.2 →
            (∃ error, last.perform call = .error error) ∨
              last.perform call = .ok (call.operation.missed, last.store) := by
  have kept := reachable_kept reachable
  refine ⟨kept.sound.validated,
    fun now left right first second => first.exclusive second kept.sound, kept.rising,
    kept.marks, fun call permits => ⟨fun failed => ?_,
      fun claim coordination lease next => grant_is_fresh kept permits,
      fun lease next releases done => ?_⟩,
    fun calls last run => ⟨fun name row found => ?_, fun grant member ended => ?_⟩⟩
  · exact (perform_call_ends kept permits).not_integrity failed
  · have gone := release_ends_lease kept permits releases done
    rw [respond_of_ok done]
    exact gone
  · exact run_records reachable run name row found
  · have endedLast := run_ended reachable run (kept.fences grant member).2 ended
    exact ⟨endedLast, fun call permits =>
      ended_lease_is_refused (reachable_kept (reachable.run run)) permits endedLast⟩

def sampleClaim : TurnCall where
  operation := .claim ⟨"scope", "session", "request", "digest", "execution", "owner", 1⟩
  id := "token"
  instants := ⟨0, 0, 0, 0, 0⟩

def sampleLease : TurnLease := ⟨.turn "scope" "execution", 1, "token"⟩

def sampleRelease : TurnCall := ⟨.release sampleLease, "receipt", ⟨1, 1, 1, 1, 1⟩⟩

def sampleClaimed : TurnHistory := TurnHistory.respond { clock := 0 } sampleClaim

def sampleReleased : TurnHistory := sampleClaimed.respond sampleRelease

theorem released_lease_has_ended :
    sampleReleased.store.validate = .ok () ∧ sampleReleased.Ended sampleLease := by
  have start : turnMachine.Reachable { clock := 0 } := .of_initial rfl
  have claims : TurnHistory.Permits { clock := 0 } sampleClaim :=
    ⟨by decide, nofun, ⟨le_rfl, le_rfl, le_rfl⟩, le_rfl, le_rfl, le_rfl⟩
  have claimed : turnMachine.Reachable sampleClaimed := start.step ⟨claims, rfl⟩
  have releases : sampleClaimed.Permits sampleRelease := by
    refine ⟨by decide, ?_, ⟨?_, le_rfl, le_rfl⟩, ?_, le_rfl, le_rfl⟩ <;> decide +kernel
  have released : turnMachine.Reachable sampleReleased := claimed.step ⟨releases, rfl⟩
  have answered : (sampleClaimed.perform sampleRelease).toOption.map (·.1) =
      some (.flag true) := by decide +kernel
  obtain ⟨⟨_, next⟩, done, rfl⟩ := Option.map_eq_some_iff.mp answered
  have calls := (durable_admissions_are_fenced sampleClaimed claimed).2.2.2.2.1 sampleRelease
    releases
  refine ⟨(durable_admissions_are_fenced sampleReleased released).1,
    calls.2.2 sampleLease next rfl ?_⟩
  cases performed : sampleClaimed.perform sampleRelease with
  | error => exact nomatch performed ▸ done
  | ok outcome =>
    rw [performed] at done
    exact congrArg Except.ok (Option.some.inj done)

structure Told (id : String) (answer : TurnAnswer) (row : TurnExecution) : Prop where
  token : row.token = id →
    ∃ coordination, answer = .turn (some coordination) ∧ coordination.lease = some row.lease
  renewed : row.receiptId = id → row.receiptKind = .renew →
    ∃ coordination, answer = .turn (some coordination) ∧ coordination.lease = some row.lease
  cancelled : row.receiptId = id → row.receiptKind = .cancel → answer = .flag true
  released : row.receiptId = id → row.receiptKind = .release → answer = .flag true

section

variable (ends : TurnEnds store id instants operation (.ok (answer, next)))
include ends

/-- A row under another token or receipt than the new one had it before. -/
theorem TurnEnds.traced (found : next.executions.lookup name = some row) :
    (row.token = id ∨ ∃ earlier, store.executions.lookup name = some earlier ∧
      earlier.lease = row.lease) ∧
    (row.receiptId = id ∨ ∃ earlier, store.executions.lookup name = some earlier ∧
      earlier.lease = row.lease ∧ earlier.receiptId = row.receiptId ∧
      earlier.receiptKind = row.receiptKind) := by
  have unchanged : store.executions.lookup name = some row → _ := fun stored =>
    (⟨.inr ⟨row, stored, rfl⟩, .inr ⟨row, stored, rfl, rfl, rfl⟩⟩ :
      (row.token = id ∨ ∃ earlier, store.executions.lookup name = some earlier ∧
        earlier.lease = row.lease) ∧
      (row.receiptId = id ∨ ∃ earlier, store.executions.lookup name = some earlier ∧
        earlier.lease = row.lease ∧ earlier.receiptId = row.receiptId ∧
        earlier.receiptKind = row.receiptKind))
  cases ends with
  | observed same _ => exact unchanged ((same.executions name).symm.trans found)
  | missed => exact unchanged found
  | @granted claim middle _ put _ _ _ _ expires formed free rows puts =>
    rcases puts.execution_cases found with ⟨_, rfl⟩ | found
    · subst rows
      exact ⟨.inl rfl, .inl rfl⟩
    · obtain ⟨earlier, stored, record, _, token, fence, _, _, receipt⟩ :=
        exists_left_of_rel expires.execution found
      have leases : earlier.lease = row.lease := by
        rw [TurnExecution.lease, TurnExecution.lease, record.scope, record.executionId, token,
          fence]
      refine ⟨.inr ⟨earlier, stored, leases⟩, ?_⟩
      rcases receipt with rfl | drawn
      · exact .inr ⟨row, stored, rfl, rfl, rfl⟩
      · exact .inl drawn.1
  | @renewed _ _ _ graph _ _ _ reached puts =>
    rcases puts.execution_cases found with ⟨here, rfl⟩ | found
    · exact ⟨.inr ⟨graph.execution, here ▸ reached.stands.execution, rfl⟩, .inl rfl⟩
    · exact unchanged found
  | @cancelled _ _ graph _ reached puts =>
    rcases puts.execution_cases found with ⟨here, rfl⟩ | found
    · exact ⟨.inr ⟨graph.execution, here ▸ reached.stands.execution, rfl⟩, .inl rfl⟩
    · exact unchanged found
  | @released _ _ graph _ _ _ reached same _ puts =>
    rcases puts.execution_cases found with ⟨here, rfl⟩ | found
    · exact ⟨.inr ⟨graph.execution, here ▸ reached.stands.execution, rfl⟩, .inl rfl⟩
    · exact unchanged ((same.executions name).symm.trans found)

/-- What an operation leaves of its own identifier tells what it answered. -/
theorem TurnEnds.told (fresh : ∀ name row, store.executions.lookup name = some row →
      row.token ≠ id ∧ row.receiptId ≠ id)
    (found : next.executions.lookup name = some row) : Told id answer row := by
  have silent : store.executions.lookup name = some row → Told id answer row := fun stored =>
    ⟨fun same => absurd same (fresh name row stored).1,
      fun same => absurd same (fresh name row stored).2,
      fun same => absurd same (fresh name row stored).2,
      fun same => absurd same (fresh name row stored).2⟩
  cases ends with
  | observed same _ => exact silent ((same.executions name).symm.trans found)
  | missed => exact silent found
  | @granted claim middle _ put _ _ _ _ expires formed free rows puts =>
    rcases puts.execution_cases found with ⟨_, rfl⟩ | found
    · refine ⟨fun _ => ⟨_, rfl, rfl⟩, fun _ _ => ⟨_, rfl, rfl⟩, fun _ kind => ?_,
        fun _ kind => ?_⟩ <;> subst rows <;> cases kind
    · obtain ⟨earlier, stored, _, _, token, _, _, _, receipt⟩ :=
        exists_left_of_rel expires.execution found
      rcases receipt with rfl | ⟨_, kind⟩
      · exact silent stored
      · have drawn : row.token ≠ id := token ▸ (fresh _ _ stored).1
        refine ⟨fun same => absurd same drawn, fun _ other => ?_, fun _ other => ?_,
          fun _ other => ?_⟩ <;> exact nomatch kind.symm.trans other
  | @renewed _ _ _ graph _ _ _ reached puts =>
    rcases puts.execution_cases found with ⟨here, rfl⟩ | found
    · exact ⟨fun _ => ⟨_, rfl, rfl⟩, fun _ _ => ⟨_, rfl, rfl⟩, nofun, nofun⟩
    · exact silent found
  | @cancelled _ _ graph _ reached puts =>
    rcases puts.execution_cases found with ⟨here, rfl⟩ | found
    · have drawn : graph.execution.token ≠ id := (fresh _ _ reached.stands.execution).1
      exact ⟨fun same => absurd same drawn, nofun, fun _ _ => rfl, nofun⟩
    · exact silent found
  | @released _ _ graph _ _ _ reached same _ puts =>
    rcases puts.execution_cases found with ⟨here, rfl⟩ | found
    · have drawn : graph.execution.token ≠ id := (fresh _ _ reached.stands.execution).1
      exact ⟨fun same => absurd same drawn, nofun, nofun, fun _ _ => rfl⟩
    · exact silent ((same.executions name).symm.trans found)

end

def TurnGraph.signature (graph : TurnGraph) : TurnGraph where
  execution := { graph.execution with storageRevision := 0 }
  request := { graph.request with storageRevision := 0 }
  session := { graph.session with storageRevision := 0 }

/-- `_anchor` of an execution. -/
def TurnStore.executionAnchor (store : TurnStore) (name : TurnName) :
    Except Failure (Option TurnGraph) := do
  match ← store.loadExecution name with
  | none => return none
  | some row =>
    match row.state with
    | .retired => return none
    | .active => some <$> store.executionGraph row

/-- The execution that a mutation reads back; without one it never reaches the store. -/
def TurnOperation.subject : TurnOperation → Option TurnName
  | .claim asked => some asked.execution
  | .renew lease _ => TurnStore.leaseIdentity lease
  | .release lease => TurnStore.leaseIdentity lease
  | .cancel scope executionId => some (scope, executionId)

def commitUnknown : Failure := .raised (.ai .storageCommitUnknown)

inductive TurnPhase
  | attempting (attempt : Nat)
  | loading
  | looking (round : Nat)
  | sampling (round : Nat) (first : TurnGraph)
  | checking (round : Nat) (first : TurnGraph) (sampled : Time)
  | done (outcome : Except Failure TurnAnswer)

namespace TurnOperation

variable (operation : TurnOperation) (id : String)

def recognise (graph : TurnGraph) : Except Failure TurnAnswer :=
  match operation with
  | .claim _ =>
    if graph.execution.token = id then .ok (.turn (some (graph.coordination true)))
    else .error commitUnknown
  | .renew _ _ =>
    if graph.execution.receiptId = id ∧ graph.execution.receiptKind = .renew then
      .ok (.turn (some (graph.coordination true)))
    else .error commitUnknown
  | .cancel _ _ =>
    if graph.execution.receiptId = id ∧ graph.execution.receiptKind = .cancel ∧
        graph.execution.cancelRequested = true then .ok (.flag true)
    else .error commitUnknown
  | .release _ => .error commitUnknown

/-- The first read of `_confirmed`. -/
def load (store : TurnStore) (name : TurnName) : TurnPhase :=
  match store.loadExecution name with
  | .error _ => .done (.error commitUnknown)
  | .ok none => .done (.error commitUnknown)
  | .ok (some row) =>
    match operation with
    | .release _ =>
      if row.state = .retired ∧ row.receiptId = id ∧ row.receiptKind = .release then
        .done (.ok (.flag true))
      else .done (.error commitUnknown)
    | _ => .looking 0

def look (store : TurnStore) (name : TurnName) (round : Nat) : TurnPhase :=
  match store.executionAnchor name with
  | .error _ => .done (.error commitUnknown)
  | .ok none => .done (.error commitUnknown)
  | .ok (some graph) => .sampling round graph

/-- The second anchor of `_observe`, and what follows from both. -/
def check (store : TurnStore) (name : TurnName) (round : Nat) (first : TurnGraph)
    (sampled : Time) : TurnPhase :=
  match store.executionAnchor name with
  | .error _ => .done (.error commitUnknown)
  | .ok none => .done (.error commitUnknown)
  | .ok (some second) =>
    if first.signature = second.signature then
      if second.session.leaseExpiresAt.any (sampled < ·) then
        .done (operation.recognise id second)
      else .done (.error commitUnknown)
    else if round < 2 then .looking (round + 1) else .done (.error commitUnknown)

end TurnOperation

structure TurnProgress where
  history : TurnHistory
  committed : Option TurnAnswer := none
  phase : TurnPhase := .attempting 0

inductive TurnEvent
  | other (call : TurnCall)
  | retry
  | refuse (error : Failure)
  | commit (instants : TurnInstants)
  | lose (instants : TurnInstants)
  | drop
  | read
  | sample (now : Time)
  | fail

variable (operation : TurnOperation) (id : String)

section

variable (progress : TurnProgress)

/-- The steps of a call under its identifier, and of everyone else.  The outcome of a commit is
unknown after one that is lost, and after one that is dropped. -/
inductive TurnProgressStep : TurnEvent → TurnProgress → Prop
  | other {call : TurnCall} (permits : progress.history.Permits call)
      (apart : call.id ≠ id) : TurnProgressStep (.other call)
        { progress with history := progress.history.respond call }
  | retry {attempt : Nat} (phase : progress.phase = .attempting attempt) (early : attempt < 2) :
      TurnProgressStep .retry { progress with phase := .attempting (attempt + 1) }
  | refuse {attempt : Nat} {error : Failure} (phase : progress.phase = .attempting attempt)
      (known : error ≠ commitUnknown) (late : error = .conflict → 2 ≤ attempt) :
      TurnProgressStep (.refuse error) { progress with phase := .done (.error error) }
  | commit {attempt : Nat} {instants : TurnInstants}
      {answer : TurnAnswer} {next : TurnStore} (phase : progress.phase = .attempting attempt)
      (ordered : instants.Ordered progress.history.clock)
      (done : progress.history.perform ⟨operation, id, instants⟩ = .ok (answer, next)) :
      TurnProgressStep (.commit instants)
        ⟨progress.history.respond ⟨operation, id, instants⟩, some answer, .done (.ok answer)⟩
  | lose {attempt : Nat} {instants : TurnInstants} {answer : TurnAnswer} {next : TurnStore}
      {name : TurnName} (phase : progress.phase = .attempting attempt)
      (subject : operation.subject = some name) (ordered : instants.Ordered progress.history.clock)
      (done : progress.history.perform ⟨operation, id, instants⟩ = .ok (answer, next)) :
      TurnProgressStep (.lose instants)
        ⟨progress.history.respond ⟨operation, id, instants⟩, some answer, .loading⟩
  | drop {attempt : Nat} {name : TurnName}
      (phase : progress.phase = .attempting attempt) (subject : operation.subject = some name) :
      TurnProgressStep .drop { progress with phase := .loading }
  | load {name : TurnName} (phase : progress.phase = .loading)
      (subject : operation.subject = some name) : TurnProgressStep .read
        { progress with phase := operation.load id progress.history.store name }
  | look {name : TurnName} {round : Nat}
      (phase : progress.phase = .looking round) (subject : operation.subject = some name) :
      TurnProgressStep .read
        { progress with phase := TurnOperation.look progress.history.store name round }
  | sample {round : Nat} {first : TurnGraph} {now : Time}
      (phase : progress.phase = .sampling round first) (ordered : progress.history.clock ≤ now) :
      TurnProgressStep (.sample now)
        ⟨{ progress.history with clock := now }, progress.committed, .checking round first now⟩
  | check {name : TurnName} {round : Nat} {first : TurnGraph}
      {sampled : Time} (phase : progress.phase = .checking round first sampled)
      (subject : operation.subject = some name) : TurnProgressStep .read
        { progress with
          phase := operation.check id progress.history.store name round first sampled }
  | fail (reads : ∀ attempt, progress.phase ≠ .attempting attempt)
      (going : ∀ outcome, progress.phase ≠ .done outcome) :
      TurnProgressStep .fail { progress with phase := .done (.error commitUnknown) }

end

def answerMachine : Machine TurnProgress TurnEvent where
  initial progress := progress = { history := progress.history } ∧
    turnMachine.Reachable progress.history ∧ id ≠ "" ∧ id ∉ progress.history.issued
  step := TurnProgressStep operation id

end Linktools.Turn
