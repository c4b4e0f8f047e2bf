import Linktools.Cache.TurnIndexes
import Linktools.Library.Machine

namespace Linktools.Cache

open Library Library.Action List

/-! The turns under any calls, with a clock that does not go back. The history keeps every
granted lease, newest first, and the leases of the cancelled turns. -/

structure TurnHistory where
  turns : Turns := {}
  clock : Int
  granted : List TurnLease := []
  cancelled : List TurnLease := []

structure TurnEvent where
  call : TurnCall
  now : Int
  outcome : Except TurnError TurnAnswer

def grantedBy : TurnCall → Except TurnError TurnAnswer → List TurnLease
  | .claim _ _, .ok (.found (some coordination)) => coordination.lease.toList
  | _, _ => []

def cancelledBy (turns : Turns) : TurnCall → Except TurnError TurnAnswer → List TurnLease
  | .cancel scope executionId, .ok (.settled true) =>
    (((turns.executions.lookup (scope, executionId)).bind fun key =>
      turns.turns.lookup key).map MemoryTurn.lease).toList
  | _, _ => []

inductive TurnStep (history : TurnHistory) : TurnEvent → TurnHistory → Prop
  | call {call : TurnCall} {now : Int} {outcome : Except TurnError TurnAnswer} {turns : Turns}
      (later : history.clock ≤ now)
      (ran : runOn (call.perform now) history.turns = (outcome, turns)) :
      TurnStep history ⟨call, now, outcome⟩
        ⟨turns, now, grantedBy call outcome ++ history.granted,
          cancelledBy turns call outcome ++ history.cancelled⟩

def turnMachine : Machine TurnHistory TurnEvent where
  initial history := ∃ clock, history = ⟨{}, clock, [], []⟩
  step := TurnStep

variable {history next last : TurnHistory} {event : TurnEvent} {events : List TurnEvent}
  {turns live : Turns} {turn other : MemoryTurn} {now : Int}

structure TurnsSound (history : TurnHistory) : Prop where
  indexed : Indexed history.turns
  fenced : ∀ lease ∈ history.granted, lease.fence ≤ history.turns.fence
  ordered : history.granted.Pairwise fun later earlier => earlier.fence < later.fence
  live : ∀ turn, Live history.turns turn → turn.lease ∈ history.granted
  cancelled : ∀ turn, Live history.turns turn →
    (turn.cancelRequested = true ↔ turn.lease ∈ history.cancelled)
  known : ∀ lease ∈ history.cancelled, lease ∈ history.granted

section

variable (sound : TurnsSound history)
include sound

theorem TurnsSound.unchanged (indexed : Indexed turns) (fence : turns.fence = history.turns.fence)
    (kept : ∀ turn, Live turns turn → ∃ earlier, Live history.turns earlier ∧
      earlier.lease = turn.lease ∧ earlier.cancelRequested = turn.cancelRequested) :
    TurnsSound ⟨turns, now, history.granted, history.cancelled⟩ where
  indexed := indexed
  fenced := by
    rw [fence]
    exact sound.fenced
  ordered := sound.ordered
  live turn stored := by
    obtain ⟨earlier, found, lease, _⟩ := kept turn stored
    rw [← lease]
    exact sound.live earlier found
  cancelled turn stored := by
    obtain ⟨earlier, found, lease, cancel⟩ := kept turn stored
    rw [← lease, ← cancel]
    exact sound.cancelled earlier found
  known := sound.known

theorem TurnsSound.expired (expired : Expired now history.turns live) :
    TurnsSound ⟨live, now, history.granted, history.cancelled⟩ :=
  sound.unchanged expired.indexed expired.fence fun turn stored =>
    ⟨turn, (expired.live_iff.mp stored).1, rfl, rfl⟩

theorem TurnsSound.step (step : TurnStep history event next) :
    TurnsSound next := by
  cases step with
  | @call call now outcome turns later ran =>
    have ends := perform_ends sound.indexed call now
    rw [ran] at ends
    dsimp only at ends
    cases ends with
    | invalid =>
      cases call <;> exact sound.unchanged sound.indexed rfl fun turn stored =>
        ⟨turn, stored, rfl, rfl⟩
    | refused expired => exact sound.expired expired
    | busy expired => exact sound.expired expired
    | found expired => cases call <;> exact sound.expired expired
    | absent expired none negative =>
      obtain rfl | rfl := negative
      · cases call <;> exact sound.expired expired
      · cases call <;> exact sound.expired expired
    | @claimed wanted token live expired session request execution =>
      have base := sound.expired expired
      have free : live.turns.lookup (wanted.turn now (live.fence + 1) token).lease.key = none :=
        session
      refine ⟨expired.indexed.insert rfl free request execution (Nat.le_succ _), ?_, ?_, ?_, ?_, ?_⟩
      · intro lease member
        cases mem_cons.mp member with
        | inl own =>
          rw [own]
          exact le_refl _
        | inr earlier => exact Nat.le_succ_of_le (base.fenced lease earlier)
      · exact .cons (fun earlier member => Nat.lt_succ_of_le (base.fenced earlier member))
          base.ordered
      · intro turn stored
        cases (live_insert free).mp stored with
        | inl own =>
          rw [own]
          exact mem_cons_self
        | inr kept => exact mem_cons_of_mem _ (base.live turn kept)
      · intro turn stored
        cases (live_insert free).mp stored with
        | inl own =>
          rw [own]
          refine ⟨nofun, fun reached => ?_⟩
          exact absurd (base.fenced _ (base.known _ reached)) (Nat.not_succ_le_self _)
        | inr kept => exact base.cancelled turn kept
      · exact fun lease member => mem_cons_of_mem _ (base.known lease member)
    | @renewed leaseSeconds live expired turn stored =>
      have base := sound.expired expired
      refine base.unchanged (expired.indexed.replace stored rfl rfl rfl rfl rfl) rfl ?_
      intro other found
      cases (live_replace stored (by rfl)).mp found with
      | inl own =>
        rw [own]
        exact ⟨turn, stored, rfl, rfl⟩
      | inr kept => exact ⟨other, kept.1, rfl, rfl⟩
    | @released live expired turn stored =>
      have base := sound.expired expired
      refine base.unchanged (expired.indexed.without stored) rfl ?_
      intro other found
      exact ⟨other, ((live_without stored).mp found).1, rfl, rfl⟩
    | @cancelled scope executionId live expired turn stored execution =>
      have base := sound.expired expired
      have reached : cancelledBy { live with
          turns := live.turns.insert turn.lease.key { turn with cancelRequested := true } }
          (.cancel scope executionId) (.ok (.settled true)) = [turn.lease] := by
        rw [cancelledBy, ← execution, expired.indexed.of_execution stored, Option.bind_some,
          AList.lookup_insert]
        rfl
      rw [reached]
      refine ⟨expired.indexed.replace stored rfl rfl rfl rfl rfl, base.fenced, base.ordered,
        ?_, ?_, ?_⟩
      · intro other found
        cases (live_replace stored (by rfl)).mp found with
        | inl own =>
          rw [own]
          exact base.live turn stored
        | inr kept => exact base.live other kept.1
      · intro other found
        cases (live_replace stored (by rfl)).mp found with
        | inl own =>
          rw [own]
          exact ⟨fun _ => mem_cons_self, fun _ => rfl⟩
        | inr kept =>
          rw [base.cancelled other kept.1, singleton_append, mem_cons]
          refine ⟨.inr, ?_⟩
          rintro (same | earlier)
          · exact absurd (Indexed.eq_of_key kept.1 stored (congrArg TurnLease.key same)) kept.2
          · exact earlier
      · intro lease member
        cases mem_cons.mp member with
        | inl own =>
          rw [own]
          exact base.live turn stored
        | inr earlier => exact base.known lease earlier

end

theorem turns_sound (reachable : turnMachine.Reachable history) : TurnsSound history := by
  refine reachable.invariant ?_ ?_
  · rintro _ ⟨clock, rfl⟩
    exact ⟨.start, nofun, .nil, nofun, nofun, nofun⟩
  · intro first event last _ sound step
    exact sound.step step

def ByHolder (call : TurnCall) (lease : TurnLease) : Prop :=
  (∃ leaseSeconds, call = .renew lease leaseSeconds) ∨ call = .release lease

structure TurnsKept (history : TurnHistory) (call : TurnCall) (now : Int)
    (outcome : Except TurnError TurnAnswer) (turns : Turns) : Prop where
  looked : outcome ≠ .error .keyError
  granted : ∀ wanted token coordination, call = .claim wanted token →
    outcome = .ok (.found (some coordination)) → ∀ lease, coordination.lease = some lease →
      (∀ earlier ∈ history.granted, earlier.fence < lease.fence) ∧
        lease = (wanted.turn now lease.fence token).lease ∧
          Live turns (wanted.turn now lease.fence token)
  owned : ∀ coordination, outcome = .ok (.found (some coordination)) → ∀ lease,
    coordination.lease = some lease → (∃ wanted token, call = .claim wanted token) ∨
      (∃ leaseSeconds, call = .renew lease leaseSeconds) ∧
        ∃ turn, Live history.turns turn ∧ now < turn.expiresAt ∧ turn.lease = lease
  stale : ∀ lease, ByHolder call lease →
    (∀ turn, Live history.turns turn → now < turn.expiresAt → turn.lease ≠ lease) →
      (∀ coordination, outcome ≠ .ok (.found (some coordination))) ∧ outcome ≠ .ok (.settled true)
  others : ∀ lease, ByHolder call lease → ∀ turn, Live history.turns turn →
    now < turn.expiresAt → turn.lease ≠ lease → Live turns turn
  stays : ∀ turn, Live history.turns turn → now < turn.expiresAt →
    (call = .release turn.lease ∧ outcome = .ok (.settled true)) ∨ ∃ later, Live turns later ∧
      later.lease = turn.lease ∧ (turn.cancelRequested = true → later.cancelRequested = true)
  shown : ∀ coordination, outcome = .ok (.found (some coordination)) → ∃ turn, Live turns turn ∧
    call.Targets turn ∧ ∃ owned, coordination = turn.coordination owned
  cancels : ∀ scope executionId, call = .cancel scope executionId →
    outcome = .ok (.settled true) → ∃ turn, Live turns turn ∧
      turn.execution = (scope, executionId) ∧ turn.cancelRequested = true

variable {outcome : Except TurnError TurnAnswer}

theorem TurnsKept.of_expired
    (expired : Expired now history.turns live) (looked : outcome ≠ .error .keyError)
    (unowned : ∀ coordination, outcome = .ok (.found (some coordination)) →
      coordination.lease = none ∧ ∃ turn, Live live turn ∧ call.Targets turn ∧
        ∃ owned, coordination = turn.coordination owned)
    (unsettled : outcome ≠ .ok (.settled true)) : TurnsKept history call now outcome live where
  looked := looked
  granted wanted token coordination _ found lease given := by
    rw [(unowned coordination found).1] at given
    cases given
  owned coordination found lease given := by
    rw [(unowned coordination found).1] at given
    cases given
  stale lease holder other := by
    refine ⟨fun coordination found => ?_, unsettled⟩
    obtain ⟨_, turn, stored, targets, _⟩ := unowned coordination found
    have here := expired.live_iff.mp stored
    obtain ⟨leaseSeconds, rfl⟩ | rfl := holder
    · exact other turn here.1 here.2 targets
    · exact other turn here.1 here.2 targets
  others _ _ turn stored unexpired _ := expired.live_iff.mpr ⟨stored, unexpired⟩
  stays turn stored unexpired := .inr ⟨turn, expired.live_iff.mpr ⟨stored, unexpired⟩, rfl, id⟩
  shown coordination found := (unowned coordination found).2
  cancels _ _ _ settled := absurd settled unsettled

theorem turnEnds_kept (sound : TurnsSound history)
    (ends : TurnEnds now history.turns call outcome turns) :
    TurnsKept history call now outcome turns := by
  cases ends with
  | invalid =>
    exact ⟨nofun, nofun, nofun, fun _ _ _ => ⟨nofun, nofun⟩, fun _ _ _ stored _ _ => stored,
      fun turn stored _ => .inr ⟨turn, stored, rfl, id⟩, nofun, nofun⟩
  | refused expired conflict =>
    exact .of_expired expired (fun same => conflict (Except.error.inj same)) nofun nofun
  | busy expired => exact .of_expired expired nofun nofun nofun
  | @found call live expired turn stored targets =>
    refine .of_expired expired nofun ?_ nofun
    intro coordination same
    cases same
    exact ⟨rfl, turn, stored, targets, false, rfl⟩
  | absent expired none negative =>
    obtain rfl | rfl := negative
    · exact .of_expired expired nofun nofun nofun
    · exact .of_expired expired nofun nofun nofun
  | @claimed wanted token live expired session =>
    have free : live.turns.lookup (wanted.turn now (live.fence + 1) token).lease.key = none :=
      session
    have inserted : Live (live.insert (wanted.turn now (live.fence + 1) token))
        (wanted.turn now (live.fence + 1) token) := (live_insert free).mpr (.inl rfl)
    refine ⟨nofun, ?_, ?_, ?_, ?_, ?_, ?_, nofun⟩
    · intro _ _ coordination same found lease given
      cases same
      cases found
      cases given
      refine ⟨fun earlier member => ?_, rfl, inserted⟩
      have counted := sound.fenced earlier member
      rw [← expired.fence] at counted
      exact Nat.lt_succ_of_le counted
    · exact fun _ _ _ _ => .inl ⟨wanted, token, rfl⟩
    · rintro _ (⟨_, impossible⟩ | impossible)
      · cases impossible
      · cases impossible
    · rintro _ (⟨_, impossible⟩ | impossible)
      · cases impossible
      · cases impossible
    · intro turn stored unexpired
      exact .inr ⟨turn, (live_insert free).mpr (.inr (expired.live_iff.mpr ⟨stored, unexpired⟩)),
        rfl, id⟩
    · intro coordination found
      cases found
      exact ⟨_, inserted, rfl, true, rfl⟩
  | @renewed leaseSeconds live expired turn stored =>
    have before := expired.live_iff.mp stored
    have changed : Live { live with
        turns := live.turns.insert turn.lease.key { turn with expiresAt := now + leaseSeconds } }
        { turn with expiresAt := now + leaseSeconds } :=
      (live_replace stored (by rfl)).mpr (.inl rfl)
    refine ⟨nofun, nofun, ?_, ?_, ?_, ?_, ?_, nofun⟩
    · intro coordination found lease given
      cases found
      cases given
      exact .inr ⟨⟨leaseSeconds, rfl⟩, turn, before.1, before.2, rfl⟩
    · rintro lease (⟨_, same⟩ | impossible) other
      · cases same
        exact absurd rfl (other turn before.1 before.2)
      · cases impossible
    · rintro lease (⟨_, same⟩ | impossible) other found unexpired different
      · cases same
        exact (live_replace stored (by rfl)).mpr (.inr
          ⟨expired.live_iff.mpr ⟨found, unexpired⟩, fun own => different (own ▸ rfl)⟩)
      · cases impossible
    · intro other found unexpired
      by_cases own : other = turn
      case pos =>
        rw [own]
        exact .inr ⟨_, changed, rfl, id⟩
      case neg =>
        exact .inr ⟨other, (live_replace stored (by rfl)).mpr (.inr
          ⟨expired.live_iff.mpr ⟨found, unexpired⟩, own⟩), rfl, id⟩
    · intro coordination found
      cases found
      exact ⟨_, changed, rfl, true, rfl⟩
  | @released live expired turn stored =>
    have before := expired.live_iff.mp stored
    refine ⟨nofun, nofun, nofun, ?_, ?_, ?_, nofun, nofun⟩
    · rintro lease (⟨_, impossible⟩ | same) other
      · cases impossible
      · cases same
        exact absurd rfl (other turn before.1 before.2)
    · rintro lease (⟨_, impossible⟩ | same) other found unexpired different
      · cases impossible
      · cases same
        exact (live_without stored).mpr
          ⟨expired.live_iff.mpr ⟨found, unexpired⟩, fun own => different (own ▸ rfl)⟩
    · intro other found unexpired
      by_cases own : other = turn
      case pos =>
        rw [own]
        exact .inl ⟨rfl, rfl⟩
      case neg =>
        exact .inr ⟨other, (live_without stored).mpr
          ⟨expired.live_iff.mpr ⟨found, unexpired⟩, own⟩, rfl, id⟩
  | @cancelled scope executionId live expired turn stored execution =>
    have changed : Live { live with
        turns := live.turns.insert turn.lease.key { turn with cancelRequested := true } }
        { turn with cancelRequested := true } :=
      (live_replace stored (by rfl)).mpr (.inl rfl)
    refine ⟨nofun, nofun, nofun, ?_, ?_, ?_, nofun, ?_⟩
    · rintro lease (⟨_, impossible⟩ | impossible)
      · cases impossible
      · cases impossible
    · rintro lease (⟨_, impossible⟩ | impossible)
      · cases impossible
      · cases impossible
    · intro other found unexpired
      by_cases own : other = turn
      case pos =>
        rw [own]
        exact .inr ⟨_, changed, rfl, fun _ => rfl⟩
      case neg =>
        exact .inr ⟨other, (live_replace stored (by rfl)).mpr (.inr
          ⟨expired.live_iff.mpr ⟨found, unexpired⟩, own⟩), rfl, id⟩
    · intro _ _ same _
      cases same
      exact ⟨_, changed, execution, rfl⟩

theorem run_cancelled (run : Machine.Run turnMachine history events last)
    (reachable : turnMachine.Reachable history) :
    ∀ lease ∈ history.cancelled, lease ∈ last.cancelled := by
  change (fun first last : TurnHistory => ∀ lease ∈ first.cancelled, lease ∈ last.cancelled)
    history last
  apply run.relates (fun _ _ member => member) ?_ ?_ reachable
  · intro first middle last earlier later lease member
    exact later lease (earlier lease member)
  · intro first event last _ step lease member
    cases step with
    | call => exact mem_append_right _ member

/-- The indexes name one set of turns, each of which owns its session, its request and its
execution; a call keeps what it may not end; and a cancellation stays with its turn. -/
theorem turns_are_exclusive (reachable : turnMachine.Reachable history) : Indexed history.turns ∧
    (∀ left right, Live history.turns left → Live history.turns right →
      (left.scope = right.scope ∧ left.sessionKey = right.sessionKey) ∨
        left.request = right.request ∨ left.execution = right.execution → left = right) ∧
    (∀ call now outcome next, TurnStep history ⟨call, now, outcome⟩ next →
      TurnsKept history call now outcome next.turns) ∧ (∀ turn, Live history.turns turn →
      (turn.cancelRequested = true ↔ turn.lease ∈ history.cancelled)) ∧
    ∀ events last, Machine.Run turnMachine history events last → ∀ turn later,
      Live history.turns turn → Live last.turns later → later.lease = turn.lease →
        turn.cancelRequested = true → later.cancelRequested = true := by
  have sound := turns_sound reachable
  refine ⟨sound.indexed, ?_, ?_, sound.cancelled, ?_⟩
  · intro left right leftLive rightLive same
    exact sound.indexed.eq_of_names leftLive rightLive same
  · intro call now outcome next step
    cases step with
    | call _ ran =>
      have ends := perform_ends sound.indexed call now
      rw [ran] at ends
      exact turnEnds_kept sound ends
  · intro events last run turn later stored found same cancel
    rw [(turns_sound (reachable.run run)).cancelled later found, same]
    exact run_cancelled run reachable _ ((sound.cancelled turn stored).mp cancel)

/-- A claim, the cancellation of its turn, and a renewal that shows it. -/
theorem sample_cancelled_turn : ∃ history,
    turnMachine.Reachable history ∧ history.granted.length = 1 ∧ ∀ turn, Live history.turns turn →
        (turn.cancelRequested = true ↔ turn.lease ∈ history.cancelled) := by
  have start : turnMachine.Reachable ⟨{}, 0, [], []⟩ := .of_initial ⟨0, rfl⟩
  have first := start.step (@TurnStep.call _
    (.claim ⟨"scope", "session", "request", "digest", "execution", "owner", 30⟩ "token") 1 _ _
      (by decide) rfl)
  have second := first.step (@TurnStep.call _ (.cancel "scope" "execution") 2 _ _ (by decide) rfl)
  exact ⟨_, second, by decide +kernel, (turns_are_exclusive second).2.2.2.1⟩

/-! Scopes that hold a turn for as long as they renew it. A call is sent, applied by the backend
later, and answered or given up, in any order with everything else. -/

inductive ScopeCall
  | claim
  | renew
  | release
deriving DecidableEq

inductive Transit
  | idle
  | sent (call : TurnCall)
  | applied (call : TurnCall) (outcome : Except TurnError TurnAnswer)

def Transit.call : Transit → Option TurnCall
  | .idle => none
  | .sent call => some call
  | .applied call _ => some call

inductive ScopePhase
  | created
  | claiming (cancelled : Bool)
  | failed
  | entered
  | cleaning
  | releasing
  | exited (released : Bool)

def ScopePhase.outside : ScopePhase → Bool
  | .created | .claiming _ | .failed => true
  | _ => false

def ScopePhase.closed : ScopePhase → Bool
  | .cleaning | .releasing | .exited _ => true
  | _ => false

/-- The renewal task, asleep until a time or waiting for the deadline that it asked for. -/
inductive Renewal
  | absent
  | sleeping (wake : Int)
  | waiting (deadline : Int)
  | finished

inductive ScopeError
  | valueError (text : String)
  | runtimeError (text : String)
  | storageConflict (text : String)
  | failure (text : String)
deriving DecidableEq

inductive Signal
  | ownerLost
  | cancelRequested
deriving DecidableEq

inductive Waited
  | raised (error : ScopeError)
  | told (signal : Signal)
  | asleep
deriving DecidableEq

structure TurnScope where
  claim : TurnClaim
  renewSeconds : Int
  phase : ScopePhase := .created
  coordination : Option TurnCoordination := none
  renewal : Renewal := .absent
  timer : Option Int := none
  sleepers : Nat := 0
  deadline : Int := 0
  lost : Bool := false
  failure : Option String := none
  cancelDelivered : Bool := false
  cancelRequested : Bool := false
  calls : ScopeCall → Transit := fun _ => .idle

namespace TurnScope

variable (scope : TurnScope) (now : Int)

def create (claim : TurnClaim) (renewSeconds : Int) : Except ScopeError TurnScope := do
  refuse (¬(0 < renewSeconds ∧ renewSeconds < claim.leaseSeconds)) (ScopeError.valueError
    "renewal period must be positive and shorter than the finite lease")
  return { claim := claim, renewSeconds := renewSeconds }

def closed : Bool :=
  scope.phase.closed

def lease : Option TurnLease :=
  scope.coordination.bind TurnCoordination.lease

/-- The lease that the backend granted, whether the scope knows of it or not. -/
def granted : Option TurnLease :=
  match scope.calls .claim with
  | .applied _ (.ok (.found (some coordination))) => coordination.lease
  | _ => none

def send (kind : ScopeCall) (call : TurnCall) : TurnScope :=
  { scope with calls := Function.update scope.calls kind (.sent call) }

def arrive (kind : ScopeCall) (call : TurnCall) (outcome : Except TurnError TurnAnswer) :
    TurnScope :=
  { scope with calls := Function.update scope.calls kind (.applied call outcome) }

def lose : TurnScope :=
  if scope.closed then scope else { scope with lost := true, sleepers := 0 }

def enter (token : String) : TurnScope :=
  send { scope with phase := .claiming false, deadline := now + scope.claim.leaseSeconds }
    .claim (.claim scope.claim token)

def close : TurnScope :=
  { scope with phase := .cleaning, sleepers := 0 }

def claimAnswered (cancelled : Bool) (result : Option TurnCoordination) : TurnScope :=
  let answered := { scope with coordination := result }
  if cancelled then answered.close
  else
    match result with
    | none => { answered with phase := .entered }
    | some coordination =>
      if coordination.lease = none then { answered with phase := .entered }
      else if coordination.executionId ≠ scope.claim.executionId ∨
          coordination.ownerId ≠ scope.claim.ownerId then answered.close
      else
        let entered := { answered with
          phase := .entered
          cancelRequested := coordination.cancelRequested
          sleepers := if coordination.cancelRequested then 0 else scope.sleepers }
        if scope.deadline ≤ now then entered.lose
        else { entered with
          timer := some scope.deadline, renewal := .sleeping (now + scope.renewSeconds) }

def requireOwned : Except ScopeError Unit :=
  refuse (scope.closed = true ∨ scope.lease = none)
    (ScopeError.runtimeError "turn scope is not an entered owned lifetime")

def checked : TurnScope :=
  if scope.deadline ≤ now then scope.lose else scope

def requireActive : Except ScopeError Unit × TurnScope :=
  match scope.requireOwned with
  | .error error => (.error error, scope)
  | .ok _ =>
    let checked := scope.checked now
    if checked.lost then
      match checked.failure with
      | some failure => (.error (.failure failure), checked)
      | none => (.error (.storageConflict "turn ownership was lost"), checked)
    else (.ok ⟨⟩, checked)

def waitSignal : Waited × TurnScope :=
  match scope.requireOwned with
  | .error error => (.raised error, scope)
  | .ok _ =>
    let checked := scope.checked now
    if checked.lost then
      match checked.failure with
      | some failure => (.raised (.failure failure), checked)
      | none => (.told .ownerLost, checked)
    else if checked.cancelRequested = true ∧ checked.cancelDelivered = false then
      (.told .cancelRequested, { checked with cancelDelivered := true })
    else (.asleep, { checked with sleepers := checked.sleepers + 1 })

def Ended : Prop :=
  scope.closed = true ∨ scope.lost = true ∨ scope.deadline ≤ now

instance : Decidable (scope.Ended now) :=
  inferInstanceAs (Decidable (_ ∨ _ ∨ _))

def stopRenewal : TurnScope :=
  { scope.lose with renewal := .finished }

def renew : TurnScope :=
  if scope.Ended now then scope.stopRenewal
  else
    match scope.lease with
    | none => scope
    | some lease =>
      send { scope with renewal := .waiting (now + scope.claim.leaseSeconds) }
        .renew (.renew lease scope.claim.leaseSeconds)

def Agrees (renewed : TurnCoordination) : Prop :=
  renewed.lease = scope.lease ∧
    scope.coordination.map TurnCoordination.executionId = some renewed.executionId ∧
      scope.coordination.map TurnCoordination.ownerId = some renewed.ownerId

instance {renewed : TurnCoordination} : Decidable (scope.Agrees renewed) :=
  inferInstanceAs (Decidable (_ ∧ _ ∧ _))

def renewAnswered (deadline : Int) (renewed : Option TurnCoordination) : TurnScope :=
  if scope.Ended now then scope.stopRenewal
  else
    match renewed with
    | none => scope.stopRenewal
    | some renewed =>
      if ¬scope.Agrees renewed ∨ deadline ≤ now then scope.stopRenewal
      else { scope with
        deadline := deadline
        timer := some deadline
        renewal := .sleeping (now + scope.renewSeconds)
        cancelRequested := scope.cancelRequested || renewed.cancelRequested
        sleepers := if renewed.cancelRequested then 0 else scope.sleepers }

def renewFailed (failure : Option String) : TurnScope :=
  match failure with
  | none => scope.stopRenewal
  | some error =>
    if scope.closed then scope.stopRenewal
    else { scope with failure := some error }.stopRenewal

def cleanup : TurnScope :=
  let stopped := { scope with timer := none, renewal := .finished }
  match scope.lease with
  | none => { stopped with phase := .exited true }
  | some lease => send { stopped with phase := .releasing } .release (.release lease)

end TurnScope

inductive ScopeEvent
  | enter (token : String)
  | cancelClaim
  | claimed
  | claimFailed
  | timeOut
  | renew
  | renewed
  | renewFailed (failure : Option String)
  | required (outcome : Except ScopeError Unit)
  | waited (outcome : Waited)
  | cancelWait
  | exit
  | cleanup
  | released
  | releaseFailed
deriving DecidableEq

section

variable (now : Int) (scope : TurnScope)

inductive ScopeStep : ScopeEvent → TurnScope → Prop
  | enter (unused : scope.phase = .created) :
      ScopeStep (.enter token) (scope.enter now token)
  | cancelClaim (claiming : scope.phase = .claiming cancelled) :
      ScopeStep .cancelClaim { scope with phase := .claiming true }
  | claimed {cancelled : Bool} {call : TurnCall} {result : Option TurnCoordination}
      (claiming : scope.phase = .claiming cancelled)
      (answer : scope.calls .claim = .applied call (.ok (.found result))) :
      ScopeStep .claimed (scope.claimAnswered now cancelled result)
  | claimFailed (claiming : scope.phase = .claiming cancelled) :
      ScopeStep .claimFailed { scope with phase := .failed }
  | timeOut (armed : scope.timer = some deadline) (due : deadline ≤ now) :
      ScopeStep .timeOut { scope.lose with timer := none }
  | renew {wake : Int} (sleeping : scope.renewal = .sleeping wake) (due : wake ≤ now) :
      ScopeStep .renew (scope.renew now)
  | renewed {deadline : Int} {call : TurnCall} {result : Option TurnCoordination}
      (waiting : scope.renewal = .waiting deadline)
      (answer : scope.calls .renew = .applied call (.ok (.found result))) :
      ScopeStep .renewed (scope.renewAnswered now deadline result)
  | renewFailed {deadline : Int} {failure : Option String}
      (waiting : scope.renewal = .waiting deadline) :
      ScopeStep (.renewFailed failure) (scope.renewFailed failure)
  | required :
      ScopeStep (.required (scope.requireActive now).1) (scope.requireActive now).2
  | waited : ScopeStep (.waited (scope.waitSignal now).1) (scope.waitSignal now).2
  | cancelWait (asleep : 0 < scope.sleepers) :
      ScopeStep .cancelWait { scope with sleepers := scope.sleepers - 1 }
  | exit (entered : scope.phase = .entered) : ScopeStep .exit scope.close
  | cleanup (cleaning : scope.phase = .cleaning) : ScopeStep .cleanup scope.cleanup
  | released {call : TurnCall} {done : Bool} (releasing : scope.phase = .releasing)
      (answer : scope.calls .release = .applied call (.ok (.settled done))) :
      ScopeStep .released { scope with phase := .exited true }
  | releaseFailed (releasing : scope.phase = .releasing) :
      ScopeStep .releaseFailed { scope with phase := .exited false }

end

structure ScopeSystem where
  history : TurnHistory
  scopes : Nat → TurnScope

inductive SystemEvent
  | tick (now : Int)
  | called (call : TurnCall) (outcome : Except TurnError TurnAnswer)
  | applied (id : Nat) (kind : ScopeCall) (outcome : Except TurnError TurnAnswer)
  | moved (id : Nat) (event : ScopeEvent)

inductive SystemStep (system : ScopeSystem) : SystemEvent → ScopeSystem → Prop
  | tick {now : Int} (later : system.history.clock ≤ now) :
      SystemStep system (.tick now) { system with history := { system.history with clock := now } }
  | called {call : TurnCall} {outcome : Except TurnError TurnAnswer} {history : TurnHistory}
      (foreign : ∀ id lease, (system.scopes id).granted = some lease → ¬ByHolder call lease)
      (step : TurnStep system.history ⟨call, system.history.clock, outcome⟩ history) :
      SystemStep system (.called call outcome) { system with history := history }
  | applied {id : Nat} {kind : ScopeCall} {call : TurnCall} {outcome : Except TurnError TurnAnswer}
      {history : TurnHistory} (sent : (system.scopes id).calls kind = .sent call)
      (step : TurnStep system.history ⟨call, system.history.clock, outcome⟩ history) :
      SystemStep system (.applied id kind outcome)
        ⟨history, Function.update system.scopes id ((system.scopes id).arrive kind call outcome)⟩
  | moved {id : Nat} {event : ScopeEvent} {next : TurnScope}
      (step : ScopeStep system.history.clock (system.scopes id) event next) :
      SystemStep system (.moved id event)
        { system with scopes := Function.update system.scopes id next }

def scopeMachine : Machine ScopeSystem SystemEvent where
  initial system := turnMachine.initial system.history ∧
    ∀ id, ∃ claim renewSeconds, TurnScope.create claim renewSeconds = .ok (system.scopes id)
  step := SystemStep

end Linktools.Cache
