import Linktools.Turn.Answers

namespace Linktools.Turn

open Linktools.Core Library
open State (Failure)
open TurnOperation

variable {operation : TurnOperation} {id : String} {store next : TurnStore}
  {instants : TurnInstants} {answer : TurnAnswer} {name : TurnName} {row : TurnExecution}
  {history : TurnHistory} {progress after last : TurnProgress} {events : List TurnEvent}

def TurnAnswer.Owned : TurnAnswer → Prop
  | .turn shown => ∃ coordination ∈ shown, coordination.lease ≠ none
  | .flag changed => changed = true

/-- The lease is the call's: granted to it under its token, or the one it renewed. -/
def TurnOperation.Earns (operation : TurnOperation) (id : String) (history : TurnHistory)
    (lease : TurnLease) : Prop :=
  match operation with
  | .claim asked => lease.token = id ∧ (asked.session, lease) ∈ history.grants
  | .renew held _ => lease = held
  | _ => False

def Backed (committed : Option TurnAnswer) (answer : TurnAnswer) : Prop :=
  committed = some answer ∨ ∃ shown granted, answer = .turn (some shown) ∧
    committed = some (.turn (some granted)) ∧ shown.lease = granted.lease ∧ shown.lease ≠ none

structure TurnProgress.Kept (operation : TurnOperation) (id : String) (progress : TurnProgress) :
    Prop where
  history : progress.history.Kept
  drawn : id ≠ ""
  unspent : progress.committed = none → id ∉ progress.history.issued
  told : ∀ answer ∈ progress.committed, ∀ name row,
    progress.history.store.executions.lookup name = some row → Told id answer row
  earned : ∀ coordination lease, progress.committed = some (.turn (some coordination)) →
    coordination.lease = some lease → operation.Earns id progress.history lease
  attempting : ∀ attempt, progress.phase = .attempting attempt → progress.committed = none
  answered : ∀ answer, progress.phase = .done (.ok answer) → Backed progress.committed answer

theorem executionAnchor_cases (sound : TurnsSound store) (name : TurnName) :
    ((∀ graph, Stands store graph → graph.execution.name ≠ name) ∧
      store.executionAnchor name = .ok none) ∨
    ∃ graph, Stands store graph ∧ graph.execution.name = name ∧
      store.executionAnchor name = .ok (some graph) := by
  unfold TurnStore.executionAnchor
  rw [loadExecution_eq fun row found => (sound.executionRows _ row found).2, ok_bind]
  cases found : store.executions.lookup name with
  | none =>
    refine .inl ⟨fun graph stands named => ?_, rfl⟩
    rw [← named, stands.execution] at found
    cases found
  | some row =>
    dsimp only
    cases state : row.state with
    | retired =>
      refine .inl ⟨fun graph stands named => ?_, rfl⟩
      rw [← named, stands.execution] at found
      cases found
      exact nomatch stands.executionActive.symm.trans state
    | active =>
      obtain ⟨graph, stands, rfl⟩ := sound.executions name row found state
      refine .inr ⟨graph, stands, (sound.executionRows name _ found).1, ?_⟩
      dsimp only
      rw [stands.executionGraph_eq sound]
      rfl

variable {graph : TurnGraph}

/-- A live turn that a read-back recognises was left so by the call. -/
theorem recognise_backed (kept : progress.Kept operation id)
    (stands : Stands progress.history.store graph)
    (recognised : operation.recognise id graph = .ok answer) :
    Backed progress.committed answer ∧ answer.Owned := by
  have marked := kept.history.drawn _ _ stands.execution
  have told : graph.execution.token = id ∨ graph.execution.receiptId = id →
      ∃ own, progress.committed = some own ∧ Told id own graph.execution := by
    intro touched
    cases spent : progress.committed with
    | none =>
      have unspent := kept.unspent spent
      rcases touched with same | same
      · exact absurd (same ▸ marked.1) unspent
      · exact absurd (same ▸ marked.2) unspent
    | some own => exact ⟨own, rfl, kept.told own spent _ _ stands.execution⟩
  unfold recognise at recognised
  cases operation with
  | claim =>
    dsimp only at recognised
    split at recognised
    case isFalse => cases recognised
    case isTrue same =>
      cases recognised
      obtain ⟨own, committed, told⟩ := told (.inl same)
      obtain ⟨granted, rfl, lease⟩ := told.token same
      exact ⟨.inr ⟨_, granted, rfl, committed, lease.symm, nofun⟩, _, rfl, nofun⟩
  | renew =>
    dsimp only at recognised
    split at recognised
    case isFalse => cases recognised
    case isTrue same =>
      cases recognised
      obtain ⟨own, committed, told⟩ := told (.inr same.1)
      obtain ⟨granted, rfl, lease⟩ := told.renewed same.1 same.2
      exact ⟨.inr ⟨_, granted, rfl, committed, lease.symm, nofun⟩, _, rfl, nofun⟩
  | cancel =>
    dsimp only at recognised
    split at recognised
    case isFalse => cases recognised
    case isTrue same =>
      cases recognised
      obtain ⟨own, committed, told⟩ := told (.inr same.1)
      rw [told.cancelled same.1 same.2.1] at committed
      exact ⟨.inl committed, rfl⟩
  | release => cases recognised

theorem load_backed (kept : progress.Kept operation id)
    (done : operation.load id progress.history.store name = .done (.ok answer)) :
    Backed progress.committed answer ∧ answer.Owned := by
  unfold load at done
  rw [loadExecution_eq fun row found => (kept.history.sound.executionRows _ row found).2] at done
  cases found : progress.history.store.executions.lookup name with
  | none =>
    rw [found] at done
    cases done
  | some row =>
    rw [found] at done
    dsimp only at done
    cases operation with
    | claim => cases done
    | renew => cases done
    | cancel => cases done
    | release =>
      dsimp only at done
      split at done
      case isFalse => cases done
      case isTrue same =>
        cases done
        cases spent : progress.committed with
        | none =>
          have marked := (kept.history.drawn _ _ found).2
          exact absurd (same.2.1 ▸ marked) (kept.unspent spent)
        | some own =>
          rw [(kept.told own spent _ _ found).released same.2.1 same.2.2]
          exact ⟨.inl rfl, rfl⟩

theorem look_silent (round : Nat) : look store name round ≠ .done (.ok answer) := by
  unfold look
  split <;> exact nofun

variable {round : Nat} {first : TurnGraph} {sampled : Time}

theorem check_backed (kept : progress.Kept operation id)
    (done : operation.check id progress.history.store name round first sampled =
      .done (.ok answer)) :
    Backed progress.committed answer ∧ answer.Owned := by
  unfold check at done
  rcases executionAnchor_cases kept.history.sound name with
    ⟨_, missing⟩ | ⟨graph, stands, _, found⟩
  · rw [missing] at done
    cases done
  · rw [found] at done
    dsimp only at done
    split at done
    case isFalse =>
      split at done
      case isTrue => cases done
      case isFalse => cases done
    case isTrue =>
      split at done
      case isFalse => cases done
      case isTrue => exact recognise_backed kept stands (TurnPhase.done.inj done)

variable {call : TurnCall}

theorem respond_unissued (fresh : id ∉ history.issued) (apart : call.id ≠ id) :
    id ∉ (history.respond call).issued := by
  cases done : history.perform call with
  | error error => rwa [respond_of_error done]
  | ok outcome =>
    rw [respond_of_ok done]
    exact List.not_mem_cons_of_ne_of_not_mem apart.symm fresh

theorem respond_grants (member : grant ∈ history.grants) :
    grant ∈ (history.respond call).grants := by
  cases done : history.perform call with
  | error error => rwa [respond_of_error done]
  | ok outcome =>
    rw [respond_of_ok done]
    exact List.mem_append_right _ member

variable {lease : TurnLease}

theorem TurnOperation.Earns.mono (earns : operation.Earns id history lease)
    (grows : ∀ grant ∈ history.grants, grant ∈ later.grants) : operation.Earns id later lease := by
  cases operation with
  | claim => exact ⟨earns.1, grows _ earns.2⟩
  | renew => exact earns
  | release => exact earns
  | cancel => exact earns

theorem respond_told (kept : history.Kept) (permits : history.Permits call) (apart : call.id ≠ id)
    (told : ∀ name row, history.store.executions.lookup name = some row → Told id answer row)
    (found : (history.respond call).store.executions.lookup name = some row) :
    Told id answer row := by
  have ends := perform_call_ends kept permits
  cases done : history.perform call with
  | error error =>
    rw [respond_of_error done] at found
    exact told name row found
  | ok outcome =>
    rw [respond_of_ok done] at found
    rw [done] at ends
    obtain ⟨tokens, receipts⟩ := ends.traced found
    have before : row.receiptId = id → ∃ earlier : TurnExecution,
        Told id answer earlier ∧ earlier.lease = row.lease ∧ earlier.receiptId = id ∧
          earlier.receiptKind = row.receiptKind := by
      intro same
      rcases receipts with drawn | ⟨earlier, stored, lease, receipt, kind⟩
      · exact absurd (drawn.symm.trans same) apart
      · exact ⟨earlier, told _ _ stored, lease, receipt.trans same, kind⟩
    refine ⟨fun same => ?_, fun same kind => ?_, fun same kind => ?_, fun same kind => ?_⟩
    · rcases tokens with drawn | ⟨earlier, stored, lease⟩
      · exact absurd (drawn.symm.trans same) apart
      · rw [← lease]
        exact (told _ _ stored).token ((congrArg TurnLease.token lease).trans same)
    · obtain ⟨earlier, said, lease, receipt, kinds⟩ := before same
      rw [← lease]
      exact said.renewed receipt (kinds.trans kind)
    · obtain ⟨earlier, said, _, receipt, kinds⟩ := before same
      exact said.cancelled receipt (kinds.trans kind)
    · obtain ⟨earlier, said, _, receipt, kinds⟩ := before same
      exact said.released receipt (kinds.trans kind)

theorem other_kept (kept : progress.Kept operation id)
    (permits : progress.history.Permits call) (apart : call.id ≠ id) :
    TurnProgress.Kept operation id { progress with history := progress.history.respond call } where
  history := respond_kept kept.history permits
  drawn := kept.drawn
  unspent none := respond_unissued (kept.unspent none) apart
  told answer committed _ _ found :=
    respond_told kept.history permits apart (kept.told answer committed) found
  earned coordination lease committed owned :=
    (kept.earned coordination lease committed owned).mono fun _ => respond_grants
  attempting := kept.attempting
  answered := kept.answered

theorem TurnEnds.earns (ends : TurnEnds store id instants operation (.ok (answer, next)))
    (grants : ∀ grant ∈ operation.grants answer, grant ∈ history.grants)
    (shown : answer = .turn (some coordination)) (owned : coordination.lease = some lease) :
    operation.Earns id history lease := by
  cases ends with
  | observed _ unowned =>
    cases shown
    exact nomatch owned.symm.trans (unowned coordination rfl)
  | @granted claim middle _ put _ _ _ _ expires formed free rows puts =>
    cases shown
    cases owned
    subst rows
    exact ⟨rfl, grants _ List.mem_cons_self⟩
  | missed => cases operation <;> cases shown
  | renewed identified reached puts =>
    cases shown
    cases owned
    have same := reached.lease_eq identified
    exact same
  | cancelled => cases shown
  | released => cases shown

theorem own_kept (kept : progress.Kept operation id) (unspent : progress.committed = none)
    (ordered : instants.Ordered progress.history.clock)
    (done : progress.history.perform ⟨operation, id, instants⟩ = .ok (answer, next))
    (moves : ∀ attempt, phase ≠ .attempting attempt)
    (answers : ∀ shown, phase = .done (.ok shown) → shown = answer) : TurnProgress.Kept operation id
      ⟨progress.history.respond ⟨operation, id, instants⟩, some answer, phase⟩ := by
  have fresh := kept.unspent unspent
  have permits : progress.history.Permits ⟨operation, id, instants⟩ := ⟨kept.drawn, fresh, ordered⟩
  have ends := perform_call_ends kept.history permits
  rw [done] at ends
  have marks : ∀ name row, progress.history.store.executions.lookup name = some row →
      row.token ≠ id ∧ row.receiptId ≠ id := by
    intro name row found
    have marked := kept.history.drawn name row found
    exact ⟨fun same => fresh (same ▸ marked.1), fun same => fresh (same ▸ marked.2)⟩
  refine ⟨respond_kept kept.history permits, kept.drawn, nofun, fun own same _ _ found => ?_,
    fun coordination lease same owned => ?_, fun attempt same => absurd same (moves attempt),
    fun shown same => ?_⟩
  · cases same
    rw [respond_of_ok done] at found
    exact ends.told marks found
  · cases same
    refine ends.earns (fun grant member => ?_) rfl owned
    rw [respond_of_ok done]
    exact List.mem_append_left _ member
  · rw [answers shown same]
    exact .inl rfl

theorem TurnProgress.Kept.phase (kept : progress.Kept operation id) (phase : TurnPhase)
    (moves : ∀ attempt, phase = .attempting attempt → progress.committed = none)
    (answers : ∀ answer, phase = .done (.ok answer) → Backed progress.committed answer) :
    TurnProgress.Kept operation id { progress with phase } :=
  ⟨kept.history, kept.drawn, kept.unspent, kept.told, kept.earned, moves, answers⟩

theorem load_moves (attempt : Nat) : operation.load id store name ≠ .attempting attempt := by
  unfold load
  split
  · exact nofun
  · exact nofun
  · split
    · split <;> exact nofun
    · exact nofun

theorem look_moves (round attempt : Nat) : look store name round ≠ .attempting attempt := by
  unfold look
  split <;> exact nofun

theorem check_moves (round attempt : Nat) (first : TurnGraph) (sampled : Time) :
    operation.check id store name round first sampled ≠ .attempting attempt := by
  unfold check
  split
  · exact nofun
  · exact nofun
  · split
    · split <;> exact nofun
    · split <;> exact nofun

theorem progress_kept (kept : progress.Kept operation id)
    (step : TurnProgressStep operation id progress event after) : after.Kept operation id := by
  cases step with
  | other permits apart => exact other_kept kept permits apart
  | retry phase _ => exact kept.phase _ (fun _ _ => kept.attempting _ phase) fun _ => nofun
  | refuse => exact kept.phase _ (fun _ => nofun) fun _ => nofun
  | commit phase ordered done =>
    refine own_kept kept (kept.attempting _ phase) ordered done (fun _ => nofun)
      fun shown same => ?_
    cases same
    rfl
  | lose phase subject ordered done =>
    exact own_kept kept (kept.attempting _ phase) ordered done (fun _ => nofun) fun _ => nofun
  | drop => exact kept.phase _ (fun _ => nofun) fun _ => nofun
  | load =>
    exact kept.phase _ (fun _ same => absurd same (load_moves _))
      fun _ done => (load_backed kept done).1
  | look =>
    exact kept.phase _ (fun _ same => absurd same (look_moves _ _))
      fun _ done => absurd done (look_silent _)
  | sample =>
    exact ⟨kept.history, kept.drawn, kept.unspent, kept.told, kept.earned, fun _ => nofun,
      fun _ => nofun⟩
  | check =>
    exact kept.phase _ (fun _ same => absurd same (check_moves _ _ _ _))
      fun _ done => (check_backed kept done).1
  | fail => exact kept.phase _ (fun _ => nofun) fun _ => nofun

theorem progress_reachable_kept (reachable : (answerMachine operation id).Reachable progress) :
    progress.Kept operation id := by
  apply reachable.invariant
  · rintro start ⟨same, reached, drawn, fresh⟩
    rw [same]
    exact ⟨reachable_kept reached, drawn, fun _ => fresh, fun _ => nofun, fun _ _ => nofun,
      fun _ _ => rfl, fun _ => nofun⟩
  · exact fun _ _ _ _ kept step => progress_kept kept step

/-- An execution row, and the session and the request of an active one, up to the revision of
the session. -/
structure Untouched (name : TurnName) (store next : TurnStore) : Prop where
  execution : next.executions.lookup name = store.executions.lookup name
  request : ∀ row ∈ store.executions.lookup name, row.state = .active →
    next.requests.lookup (row.scope, row.requestKey) =
      store.requests.lookup (row.scope, row.requestKey)
  session : ∀ row ∈ store.executions.lookup name, row.state = .active →
    ((next.sessions.lookup (row.scope, row.sessionKey)).map
        fun row => { row with storageRevision := 0 }) =
      (store.sessions.lookup (row.scope, row.sessionKey)).map
        fun row => { row with storageRevision := 0 }

theorem Untouched.stands (untouched : Untouched name store next)
    (stands : Stands store graph) (named : graph.execution.name = name) :
    ∃ revision, Stands next { graph with
      session := { graph.session with storageRevision := revision } } := by
  have found : store.executions.lookup name = some graph.execution := named ▸ stands.execution
  have requests := untouched.request _ found stands.executionActive
  have sessions := untouched.session _ found stands.executionActive
  rw [← stands.session_name, stands.session] at sessions
  obtain ⟨row, stored, same⟩ := Option.map_eq_some_iff.mp sessions
  have equal : row = { graph.session with storageRevision := row.storageRevision } := by
    obtain ⟨_, _, _, _, _, _, _, _, _⟩ := row
    cases session : graph.session
    rw [session] at same
    cases same
    rfl
  have request : (graph.execution.scope, graph.execution.requestKey) = graph.request.name := by
    rw [stands.request_name, stands.runs.1]
  refine ⟨row.storageRevision, ?_, ?_, ?_, stands.executionActive, stands.requestActive,
    stands.sessionActive, stands.bound, stands.runs⟩
  · rw [← stands.execution, named]
    exact untouched.execution
  · rw [request, stands.request] at requests
    exact requests
  · have renamed := congrArg TurnSession.name equal
    have unnamed : row.name = graph.session.name := renamed
    rw [← equal]
    exact unnamed ▸ stored

theorem Puts.receipted (puts : Puts store next (graph.receipted duration now id kind))
    (stands : Stands store graph) : Stands next (graph.receipted duration now id kind) := by
  obtain ⟨_, scope, key, executionId, requestKey, state, owner, fence, _⟩ :=
    graph.session.changed_fields duration now
  obtain ⟨runScope, runKey, runRequest, runExecution, runOwner, runFence⟩ := stands.runs
  exact puts.stands stands.executionActive stands.requestActive
    (state.trans stands.sessionActive) stands.bound
    ⟨runScope.trans scope.symm, runKey.trans key.symm, requestKey.trans runRequest,
      executionId.trans runExecution, owner.trans runOwner, fence.trans runFence⟩

inductive Confirms (operation : TurnOperation) (id : String) (name : TurnName)
    (turn : TurnGraph) (answer : TurnAnswer) (store : TurnStore) : Prop
  | released {lease : TurnLease} {row : TurnExecution} (own : operation = .release lease)
      (found : store.executions.lookup name = some row) (ended : row.state = .retired)
      (receipt : row.receiptId = id) (kind : row.receiptKind = .release)
      (answered : answer = .flag true)
  | standing {graph : TurnGraph} (keeps : ∀ lease, operation ≠ .release lease)
      (stands : Stands store graph) (named : graph.execution.name = name)
      (same : graph.signature = turn.signature)
      (recognised : operation.recognise id graph = .ok answer)

theorem Confirms.untouched (confirms : Confirms operation id name turn answer store)
    (untouched : Untouched name store next) : Confirms operation id name turn answer next := by
  cases confirms with
  | released own found ended receipt kind answered =>
    exact .released own (untouched.execution.trans found) ended receipt kind answered
  | standing keeps stands named same recognised =>
    obtain ⟨_, standing⟩ := untouched.stands stands named
    exact .standing keeps standing named same recognised

theorem TurnEnds.confirms (ends : TurnEnds store id instants operation (.ok (answer, next)))
    (subject : operation.subject = some name) (owned : answer.Owned) :
    ∃ turn, Confirms operation id name turn answer next := by
  cases ends with
  | observed _ unowned =>
    obtain ⟨coordination, shown, lease⟩ := owned
    exact absurd (unowned coordination shown) lease
  | @granted claim middle _ put _ _ _ _ expires formed free rows puts =>
    cases subject
    subst rows
    refine ⟨_, .standing (fun _ => nofun) (puts.stands rfl rfl rfl ⟨rfl, rfl, rfl, rfl, rfl⟩
      ⟨rfl, rfl, rfl, rfl, rfl, rfl⟩) rfl rfl ?_⟩
    exact if_pos rfl
  | missed =>
    cases operation with
    | claim => exact nomatch owned.choose_spec.1
    | renew => exact nomatch owned.choose_spec.1
    | release => cases owned
    | cancel => cases owned
  | @renewed lease _ _ graph duration _ identified reached puts =>
    cases identified.symm.trans subject
    exact ⟨_, .standing (fun _ => nofun) (puts.receipted reached.stands) reached.named rfl
      (if_pos ⟨rfl, rfl⟩)⟩
  | @cancelled _ _ graph _ reached puts =>
    cases subject
    exact ⟨_, .standing (fun _ => nofun) (puts.receipted reached.stands) reached.named rfl
      (if_pos ⟨rfl, rfl, rfl⟩)⟩
  | @released _ _ graph _ _ identified reached _ _ puts =>
    cases identified.symm.trans subject
    exact ⟨graph, .released rfl (puts.execution_at reached.named) rfl rfl rfl rfl⟩

def TurnEvent.readsBack : TurnEvent → Bool
  | .read => true
  | .sample _ => true
  | _ => false

/-- Others leave the turn alone, its lease still runs at the clock of the read-back, and no read
fails. -/
def Undisturbed (name : TurnName) (progress : TurnProgress) : TurnEvent → Prop
  | .other call =>
    Untouched name progress.history.store (progress.history.respond call).store
  | .sample now => ∀ graph, Stands progress.history.store graph → graph.execution.name = name →
      graph.session.LiveAt now
  | .fail => False
  | _ => True

/-- How far a read-back has come, and how many of its reads are left at most. -/
inductive Pending (operation : TurnOperation) (turn : TurnGraph) (answer : TurnAnswer) :
    TurnPhase → Nat → Prop
  | loading : Pending operation turn answer .loading 4
  | looking (keeps : ∀ lease, operation ≠ .release lease) :
      Pending operation turn answer (.looking 0) 3
  | sampling {first : TurnGraph} (keeps : ∀ lease, operation ≠ .release lease)
      (same : first.signature = turn.signature) :
      Pending operation turn answer (.sampling 0 first) 2
  | checking {first : TurnGraph} {sampled : Time} (keeps : ∀ lease, operation ≠ .release lease)
      (same : first.signature = turn.signature)
      (live : turn.session.leaseExpiresAt.any (sampled < ·) = true) :
      Pending operation turn answer (.checking 0 first sampled) 1
  | done : Pending operation turn answer (.done (.ok answer)) 0

variable {turn : TurnGraph} {left : Nat}

theorem load_pending (confirms : Confirms operation id name turn answer store)
    (sound : TurnsSound store) :
    ∃ left < 4, Pending operation turn answer (operation.load id store name) left := by
  unfold load
  rw [loadExecution_eq fun row found => (sound.executionRows _ row found).2]
  cases confirms with
  | released own found ended receipt kind answered =>
    subst own answered
    rw [found]
    dsimp only
    rw [if_pos ⟨ended, receipt, kind⟩]
    exact ⟨0, by decide, .done⟩
  | standing keeps stands named =>
    rw [← named, stands.execution]
    cases operation with
    | release lease => exact absurd rfl (keeps lease)
    | claim => exact ⟨3, by decide, .looking keeps⟩
    | renew => exact ⟨3, by decide, .looking keeps⟩
    | cancel => exact ⟨3, by decide, .looking keeps⟩

theorem anchor_of_stands (stands : Stands store graph)
    (named : graph.execution.name = name) (sound : TurnsSound store) :
    store.executionAnchor name = .ok (some graph) := by
  rcases executionAnchor_cases sound name with ⟨missing, _⟩ | ⟨other, standing, here, found⟩
  · exact absurd named (missing graph stands)
  · rw [found, standing.eq_of_execution stands (here.trans named.symm)]

theorem signature_expiry {graph other : TurnGraph} (same : graph.signature = other.signature) :
    graph.session.leaseExpiresAt = other.session.leaseExpiresAt := by
  have sessions := congrArg (fun graph => graph.session.leaseExpiresAt) same
  exact sessions

theorem Confirms.standing_of (confirms : Confirms operation id name turn answer store)
    (keeps : ∀ lease, operation ≠ .release lease) :
    ∃ graph, Stands store graph ∧ graph.execution.name = name ∧
      graph.signature = turn.signature ∧ operation.recognise id graph = .ok answer := by
  cases confirms with
  | released own => exact absurd own (keeps _)
  | standing _ stands named same recognised => exact ⟨_, stands, named, same, recognised⟩

/-- One step of a quiet run brings the read-back no further from its answer. -/
theorem pending_step (kept : progress.Kept operation id) (subject : operation.subject = some name)
    (confirms : Confirms operation id name turn answer progress.history.store)
    (pending : Pending operation turn answer progress.phase left)
    (step : TurnProgressStep operation id progress event after)
    (quiet : Undisturbed name progress event) :
    Confirms operation id name turn answer after.history.store ∧
      ∃ rest, Pending operation turn answer after.phase rest ∧
        rest + (if event.readsBack then 1 else 0) ≤ left := by
  have sound := kept.history.sound
  cases step with
  | other => exact ⟨confirms.untouched quiet, left, pending, le_rfl⟩
  | retry phase => rw [phase] at pending; cases pending
  | refuse phase => rw [phase] at pending; cases pending
  | commit phase => rw [phase] at pending; cases pending
  | lose phase => rw [phase] at pending; cases pending
  | drop phase => rw [phase] at pending; cases pending
  | load phase here =>
    rw [phase] at pending
    cases pending
    cases subject.symm.trans here
    obtain ⟨rest, fewer, further⟩ := @load_pending operation id _ answer name turn confirms sound
    exact ⟨confirms, rest, further, fewer⟩
  | look phase here =>
    rw [phase] at pending
    cases pending with
    | looking keeps =>
      cases subject.symm.trans here
      obtain ⟨graph, stands, named, same, _⟩ := confirms.standing_of keeps
      refine ⟨confirms, 2, ?_, le_rfl⟩
      rw [look, anchor_of_stands stands named sound]
      exact .sampling keeps same
  | sample phase ordered =>
    rw [phase] at pending
    cases pending with
    | sampling keeps same =>
      obtain ⟨graph, stands, named, still, _⟩ := confirms.standing_of keeps
      obtain ⟨_, expiry, expires, later⟩ := quiet graph stands named
      refine ⟨confirms, 1, .checking keeps same ?_, le_rfl⟩
      rw [← signature_expiry still, Option.mem_def.mp expires]
      exact decide_eq_true later
  | check phase here =>
    rw [phase] at pending
    cases pending with
    | checking keeps same live =>
      cases subject.symm.trans here
      obtain ⟨graph, stands, named, still, recognised⟩ := confirms.standing_of keeps
      refine ⟨confirms, 0, ?_, le_rfl⟩
      rw [check, anchor_of_stands stands named sound]
      dsimp only
      rw [if_pos (same.trans still.symm), signature_expiry still, if_pos live, recognised]
      exact .done
  | fail => exact quiet.elim

theorem pending_run (reachable : (answerMachine operation id).Reachable progress)
    (subject : operation.subject = some name)
    (confirms : Confirms operation id name turn answer progress.history.store)
    (pending : Pending operation turn answer progress.phase left)
    (run : Machine.Run ((answerMachine operation id).restrict (Undisturbed name)) progress events
      last) : ∃ rest, Pending operation turn answer last.phase rest ∧
      rest + events.countP TurnEvent.readsBack ≤ left := by
  induction run generalizing left with
  | nil => exact ⟨left, pending, le_rfl⟩
  | @cons first middle last event events step _ ih =>
    obtain ⟨confirms, between, pending, fewer⟩ := pending_step
      (progress_reachable_kept reachable) subject confirms pending step.1 step.2
    obtain ⟨rest, pendingLast, further⟩ := ih (reachable.step step.1) confirms pending
    refine ⟨rest, pendingLast, ?_⟩
    rw [List.countP_cons]
    omega

variable {error : Failure}

theorem recognise_error
    (failed : operation.recognise id graph = .error error) : error = commitUnknown := by
  unfold recognise at failed
  split at failed
  case h_4 => exact (Except.error.inj failed).symm
  all_goals
    split at failed
    case isTrue => cases failed
    case isFalse => exact (Except.error.inj failed).symm

theorem load_error
    (failed : operation.load id store name = .done (.error error)) : error = commitUnknown := by
  unfold load at failed
  split at failed
  case h_1 => exact (Except.error.inj (TurnPhase.done.inj failed)).symm
  case h_2 => exact (Except.error.inj (TurnPhase.done.inj failed)).symm
  case h_3 =>
    split at failed
    case h_2 => cases failed
    case h_1 =>
      split at failed
      case isTrue => cases failed
      case isFalse => exact (Except.error.inj (TurnPhase.done.inj failed)).symm

theorem look_error
    (failed : look store name round = .done (.error error)) : error = commitUnknown := by
  unfold look at failed
  split at failed
  case h_1 => exact (Except.error.inj (TurnPhase.done.inj failed)).symm
  case h_2 => exact (Except.error.inj (TurnPhase.done.inj failed)).symm
  case h_3 => cases failed

theorem check_error
    (failed : operation.check id store name round first sampled = .done (.error error)) :
    error = commitUnknown := by
  unfold check at failed
  split at failed
  case h_1 => exact (Except.error.inj (TurnPhase.done.inj failed)).symm
  case h_2 => exact (Except.error.inj (TurnPhase.done.inj failed)).symm
  case h_3 =>
    split at failed
    case isTrue =>
      split at failed
      case isTrue => exact recognise_error (TurnPhase.done.inj failed)
      case isFalse => exact (Except.error.inj (TurnPhase.done.inj failed)).symm
    case isFalse =>
      split at failed
      case isTrue => cases failed
      case isFalse => exact (Except.error.inj (TurnPhase.done.inj failed)).symm

/-- Past its attempts, a call answers a change of its own or raises the error of its commit. -/
def TurnPhase.Recovers (phase : TurnPhase) : Prop :=
  (∀ attempt, phase ≠ .attempting attempt) ∧ ∀ outcome, phase = .done outcome →
    outcome = .error commitUnknown ∨ ∃ answer, outcome = .ok answer ∧ answer.Owned

theorem TurnPhase.Recovers.of {phase : TurnPhase} (moves : ∀ attempt, phase ≠ .attempting attempt)
    (fails : ∀ error, phase = .done (.error error) → error = commitUnknown)
    (answers : ∀ answer, phase = .done (.ok answer) → answer.Owned) : phase.Recovers := by
  refine ⟨moves, fun outcome done => ?_⟩
  cases outcome with
  | error error => exact .inl (congrArg Except.error (fails error done))
  | ok answer => exact .inr ⟨answer, rfl, answers answer done⟩

theorem recovers_step (kept : progress.Kept operation id) (recovers : progress.phase.Recovers)
    (step : TurnProgressStep operation id progress event after) : after.phase.Recovers := by
  cases step with
  | other => exact recovers
  | retry phase => exact absurd phase (recovers.1 _)
  | refuse phase => exact absurd phase (recovers.1 _)
  | commit phase => exact absurd phase (recovers.1 _)
  | lose phase => exact absurd phase (recovers.1 _)
  | drop phase => exact absurd phase (recovers.1 _)
  | load => exact .of load_moves (fun _ => load_error) fun _ done => (load_backed kept done).2
  | look => exact .of (look_moves _) (fun _ => look_error) fun _ done => absurd done (look_silent _)
  | sample => exact ⟨fun _ => nofun, fun _ => nofun⟩
  | check =>
    exact .of (fun _ => check_moves _ _ _ _) (fun _ => check_error)
      fun _ done => (check_backed kept done).2
  | fail => exact ⟨fun _ => nofun, fun outcome done => .inl (TurnPhase.done.inj done).symm⟩

theorem recovers_run (reachable : (answerMachine operation id).Reachable progress)
    (recovers : progress.phase.Recovers)
    (run : Machine.Run (answerMachine operation id) progress events last) :
    last.phase.Recovers := by
  refine @Machine.Run.preserves _ _ _ (fun progress => progress.phase.Recovers)
    (fun _ _ _ reachable recovers step => ?_) _ _ _ reachable recovers run
  exact recovers_step (progress_reachable_kept reachable) recovers step

theorem Pending.settled {phase : TurnPhase} (pending : Pending operation turn answer phase left) :
    phase = .done (.ok answer) ∨ (∀ outcome, phase ≠ .done outcome) ∧ 0 < left := by
  cases pending with
  | done => exact .inl rfl
  | loading => exact .inr ⟨fun _ => nofun, by decide⟩
  | looking => exact .inr ⟨fun _ => nofun, by decide⟩
  | sampling => exact .inr ⟨fun _ => nofun, by decide⟩
  | checking => exact .inr ⟨fun _ => nofun, by decide⟩

theorem lost_confirms (kept : progress.Kept operation id) (subject : operation.subject = some name)
    (step : TurnProgressStep operation id progress (.lose instants) after)
    (committed : after.committed = some answer) (owned : answer.Owned) :
    (∃ turn, Confirms operation id name turn answer after.history.store) ∧
      after.phase = .loading := by
  cases step with
  | lose phase _ ordered done =>
    cases committed
    have permits : progress.history.Permits ⟨operation, id, instants⟩ :=
      ⟨kept.drawn, kept.unspent (kept.attempting _ phase), ordered⟩
    have ends := perform_call_ends kept.history permits
    rw [done] at ends
    rw [respond_of_ok done]
    exact ⟨ends.confirms subject owned, rfl⟩

/-- What a call answers was committed by itself, an unknown commit is answered by a change of
its own alone, and it is answered as it was committed while nobody else touches the turn. -/
theorem unknown_commits_are_answered_safely (operation : TurnOperation) (id : String)
    (progress : TurnProgress) (reachable : (answerMachine operation id).Reachable progress) :
    (∀ answer, progress.phase = .done (.ok answer) → Backed progress.committed answer) ∧
      (∀ coordination lease, progress.committed = some (.turn (some coordination)) →
        coordination.lease = some lease → operation.Earns id progress.history lease) ∧
      (progress.phase = .loading → ∀ events last,
        Machine.Run (answerMachine operation id) progress events last →
        ∀ outcome, last.phase = .done outcome →
          outcome = .error commitUnknown ∨ ∃ answer, outcome = .ok answer ∧ answer.Owned) ∧
      ∀ instants lost name answer, operation.subject = some name →
        (answerMachine operation id).step progress (.lose instants) lost →
        lost.committed = some answer → answer.Owned → ∀ events last,
        Machine.Run ((answerMachine operation id).restrict (Undisturbed name)) lost events last →
        last.phase = .done (.ok answer) ∨
          (∀ outcome, last.phase ≠ .done outcome) ∧ events.countP TurnEvent.readsBack < 4 := by
  have kept := progress_reachable_kept reachable
  refine ⟨kept.answered, kept.earned, fun loading events last run => ?_,
    fun instants lost name answer subject step committed owned events last run => ?_⟩
  · have recovers : progress.phase.Recovers := by
      rw [loading]
      exact ⟨fun _ => nofun, fun _ => nofun⟩
    exact (recovers_run reachable recovers run).2
  · have lostReachable := reachable.step step
    obtain ⟨⟨turn, confirms⟩, loading⟩ := lost_confirms kept subject step committed owned
    obtain ⟨rest, pending, fewer⟩ := pending_run lostReachable subject confirms
      (loading ▸ Pending.loading) run
    refine pending.settled.imp_right fun ⟨going, remains⟩ => ⟨going, ?_⟩
    exact lt_of_lt_of_le (Nat.lt_add_of_pos_left remains) fewer

theorem load_missing (missing : store.executions.lookup name = none) :
    operation.load id store name = .done (.error commitUnknown) := by
  unfold load TurnStore.loadExecution
  rw [missing]
  rfl

theorem load_release : ∃ outcome, (release lease).load id store name = .done outcome := by
  unfold load
  split
  case h_1 => exact ⟨_, rfl⟩
  case h_2 => exact ⟨_, rfl⟩
  case h_3 =>
    dsimp only
    split
    case isTrue => exact ⟨_, rfl⟩
    case isFalse => exact ⟨_, rfl⟩

theorem sampleClaimed_reachable : turnMachine.Reachable sampleClaimed := by
  have claims : TurnHistory.Permits { clock := 0 } sampleClaim :=
    ⟨by decide, nofun, ⟨le_rfl, le_rfl, le_rfl⟩, le_rfl, le_rfl, le_rfl⟩
  have start : turnMachine.Reachable { clock := 0 } := .of_initial rfl
  exact start.step ⟨claims, rfl⟩

/-- A release that was made before its commit got lost is answered by its read-back. -/
theorem lost_release_is_answered : ∃ last,
    Machine.Run (answerMachine sampleRelease.operation sampleRelease.id)
      { history := sampleClaimed } [.lose sampleRelease.instants, .read] last ∧
    last.phase = .done (.ok (.flag true)) := by
  have answered : (sampleClaimed.perform sampleRelease).toOption.map (·.1) =
      some (.flag true) := by decide +kernel
  have start : (answerMachine sampleRelease.operation sampleRelease.id).Reachable
      { history := sampleClaimed } :=
    .of_initial ⟨rfl, sampleClaimed_reachable, by decide, by decide +kernel⟩
  cases performed : sampleClaimed.perform sampleRelease with
  | error => exact nomatch performed ▸ answered
  | ok outcome =>
    obtain ⟨answer, next⟩ := outcome
    rw [performed] at answered
    cases answered
    have lost : (answerMachine sampleRelease.operation sampleRelease.id).step
        { history := sampleClaimed } (.lose sampleRelease.instants)
        ⟨sampleClaimed.respond sampleRelease, some (.flag true), .loading⟩ := by
      refine .lose rfl (show sampleRelease.operation.subject = some ("scope", "execution")
        from rfl) ?_ performed
      refine ⟨⟨?_, le_rfl, le_rfl⟩, ?_, le_rfl, le_rfl⟩ <;> decide +kernel
    have read : (answerMachine sampleRelease.operation sampleRelease.id).step
        ⟨sampleClaimed.respond sampleRelease, some (.flag true), .loading⟩ .read
        ⟨sampleClaimed.respond sampleRelease, some (.flag true),
          sampleRelease.operation.load sampleRelease.id
            (sampleClaimed.respond sampleRelease).store ("scope", "execution")⟩ :=
      .load rfl rfl
    have safe := unknown_commits_are_answered_safely sampleRelease.operation sampleRelease.id
      { history := sampleClaimed } start
    refine ⟨_, .cons lost (.single read), ?_⟩
    rcases safe.2.2.2 _ _ ("scope", "execution") (.flag true) rfl lost rfl rfl [.read] _
      (.single ⟨read, trivial⟩) with done | ⟨going, _⟩
    · exact done
    · obtain ⟨outcome, done⟩ := @load_release sampleRelease.id
        (sampleClaimed.respond sampleRelease).store ("scope", "execution") sampleLease
      exact absurd done (going outcome)

def sampleRival : TurnCall where
  operation := .claim ⟨"scope", "session", "later", "digest", "next", "newcomer", 1⟩
  id := "rival"
  instants := ⟨0, 0, 0, 0, 0⟩

/-- A claim that answers nothing commits, nobody else does anything, and the call raises. -/
theorem unanswered_claim_is_lost :
    (answerMachine sampleRival.operation sampleRival.id).Reachable { history := sampleClaimed } ∧
      ∃ last, Machine.Run (answerMachine sampleRival.operation sampleRival.id)
          { history := sampleClaimed } [.lose sampleRival.instants, .read] last ∧
        last.committed = some (.turn none) ∧ last.phase = .done (.error commitUnknown) := by
  refine ⟨.of_initial ⟨rfl, sampleClaimed_reachable, by decide, by decide +kernel⟩, ?_⟩
  have answered : (sampleClaimed.perform sampleRival).toOption.map (·.1) =
      some (.turn none) := by decide +kernel
  have missing : (sampleClaimed.respond sampleRival).store.executions.lookup ("scope", "next") =
      none := by decide +kernel
  cases performed : sampleClaimed.perform sampleRival with
  | error => exact nomatch performed ▸ answered
  | ok outcome =>
    obtain ⟨answer, next⟩ := outcome
    rw [performed] at answered
    cases answered
    refine ⟨_, .cons (.lose rfl rfl ?_ performed) (.cons (.load rfl rfl) (.nil _)), rfl, ?_⟩
    · refine ⟨⟨?_, le_rfl, le_rfl⟩, ?_, le_rfl, le_rfl⟩ <;> decide +kernel
    · have lost := @load_missing sampleRival.operation sampleRival.id _ ("scope", "next") missing
      dsimp only
      exact lost

end Linktools.Turn
