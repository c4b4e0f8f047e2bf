import Linktools.Cache.TurnScopes

namespace Linktools.Cache

open Library

variable {now : Int} {call : TurnCall} {lease : TurnLease} {deadline : Int}

namespace TurnEnds

theorem persists (ends : TurnEnds now turns call outcome last) (stored : Live turns turn)
    (unexpired : now < turn.expiresAt) (kept : call ≠ .release turn.lease) :
    ∃ later, Live last later ∧ later.lease = turn.lease ∧ (later.expiresAt = turn.expiresAt ∨
        ∃ leaseSeconds, call = .renew turn.lease leaseSeconds ∧
          later.expiresAt = now + leaseSeconds) := by
  cases ends with
  | invalid => exact ⟨turn, stored, rfl, .inl rfl⟩
  | refused expired => exact ⟨turn, expired.live_iff.mpr ⟨stored, unexpired⟩, rfl, .inl rfl⟩
  | busy expired => exact ⟨turn, expired.live_iff.mpr ⟨stored, unexpired⟩, rfl, .inl rfl⟩
  | found expired => exact ⟨turn, expired.live_iff.mpr ⟨stored, unexpired⟩, rfl, .inl rfl⟩
  | absent expired => exact ⟨turn, expired.live_iff.mpr ⟨stored, unexpired⟩, rfl, .inl rfl⟩
  | @claimed wanted token live expired session =>
    have here := expired.live_iff.mpr ⟨stored, unexpired⟩
    exact ⟨turn, (@live_insert live (wanted.turn now (live.fence + 1) token) turn session).mpr
      (.inr here), rfl, .inl rfl⟩
  | @renewed leaseSeconds live expired renewed found =>
    have here := expired.live_iff.mpr ⟨stored, unexpired⟩
    by_cases own : turn = renewed
    case pos =>
      rw [own]
      exact ⟨_, (live_replace found (by rfl)).mpr (.inl rfl), rfl, .inr ⟨leaseSeconds, rfl, rfl⟩⟩
    case neg => exact ⟨turn, (live_replace found (by rfl)).mpr (.inr ⟨here, own⟩), rfl, .inl rfl⟩
  | @released live expired released found =>
    have here := expired.live_iff.mpr ⟨stored, unexpired⟩
    have other : turn ≠ released := fun own => kept (own ▸ rfl)
    exact ⟨turn, (live_without found).mpr ⟨here, other⟩, rfl, .inl rfl⟩
  | @cancelled scope executionId live expired cancelled found =>
    have here := expired.live_iff.mpr ⟨stored, unexpired⟩
    by_cases own : turn = cancelled
    case pos =>
      rw [own]
      exact ⟨_, (live_replace found (by rfl)).mpr (.inl rfl), rfl, .inl rfl⟩
    case neg => exact ⟨turn, (live_replace found (by rfl)).mpr (.inr ⟨here, own⟩), rfl, .inl rfl⟩

theorem origin (ends : TurnEnds now turns call outcome last) (stored : Live last later) :
    later.lease.fence = turns.fence + 1 ∨
      ∃ earlier, Live turns earlier ∧ earlier.lease = later.lease := by
  cases ends with
  | invalid => exact .inr ⟨later, stored, rfl⟩
  | refused expired => exact .inr ⟨later, (expired.live_iff.mp stored).1, rfl⟩
  | busy expired => exact .inr ⟨later, (expired.live_iff.mp stored).1, rfl⟩
  | found expired => exact .inr ⟨later, (expired.live_iff.mp stored).1, rfl⟩
  | absent expired => exact .inr ⟨later, (expired.live_iff.mp stored).1, rfl⟩
  | @claimed wanted token live expired session =>
    have inserted := (@live_insert live (wanted.turn now (live.fence + 1) token) later
      session).mp stored
    cases inserted with
    | inl own =>
      rw [own, ← expired.fence]
      exact .inl rfl
    | inr kept => exact .inr ⟨later, (expired.live_iff.mp kept).1, rfl⟩
  | @renewed leaseSeconds live expired renewed found =>
    cases (live_replace found (by rfl)).mp stored with
    | inl own => exact .inr ⟨renewed, (expired.live_iff.mp found).1, own ▸ rfl⟩
    | inr kept => exact .inr ⟨later, (expired.live_iff.mp kept.1).1, rfl⟩
  | released expired found =>
    have kept := ((live_without found).mp stored).1
    exact .inr ⟨later, (expired.live_iff.mp kept).1, rfl⟩
  | @cancelled scope executionId live expired cancelled found =>
    cases (live_replace found (by rfl)).mp stored with
    | inl own => exact .inr ⟨cancelled, (expired.live_iff.mp found).1, own ▸ rfl⟩
    | inr kept => exact .inr ⟨later, (expired.live_iff.mp kept.1).1, rfl⟩

variable {claim : TurnClaim} {token : String} {done : Bool} {coordination : TurnCoordination}

theorem of_claim (ends : TurnEnds now turns (.claim claim token)
      (.ok (.found (some coordination))) last) (owned : coordination.lease = some lease) :
    lease.fence = turns.fence + 1 ∧ lease.key = turnKey claim.scope claim.sessionKey ∧
      ∃ turn, Live last turn ∧ turn.lease = lease ∧ turn.expiresAt = now + claim.leaseSeconds := by
  cases ends with
  | found => cases owned
  | absent _ _ negative =>
    cases negative with
    | inl same => cases same
    | inr same => cases same
  | @claimed _ _ live expired session =>
    cases owned
    rw [← expired.fence]
    refine ⟨rfl, rfl, claim.turn now (live.fence + 1) token, ?_, rfl, rfl⟩
    exact (@live_insert live (claim.turn now (live.fence + 1) token) _ session).mpr (.inl rfl)

theorem of_renew (ends : TurnEnds now turns (.renew lease leaseSeconds)
      (.ok (.found (some coordination))) last) (owned : coordination.lease = some lease) :
    ∃ turn, Live last turn ∧ turn.lease = lease ∧ turn.expiresAt = now + leaseSeconds ∧
      coordination.cancelRequested = turn.cancelRequested := by
  cases ends with
  | found => cases owned
  | absent _ _ negative =>
    cases negative with
    | inl same => cases same
    | inr same => cases same
  | renewed expired stored =>
    exact ⟨_, (live_replace stored (by rfl)).mpr (.inl rfl), rfl, rfl, rfl⟩

theorem of_release (ends : TurnEnds now turns (.release lease) (.ok (.settled done)) last)
    (stored : Live last later) : later.lease ≠ lease := by
  cases ends with
  | absent expired none => exact none later stored
  | @released live expired turn found =>
    intro same
    have kept := (live_without found).mp stored
    exact kept.2 (Indexed.eq_of_key kept.1 found (congrArg TurnLease.key same))

end TurnEnds

variable {history next : TurnHistory}

theorem TurnStep.ends (sound : TurnsSound history)
    (step : TurnStep history ⟨call, now, outcome⟩ next) :
    TurnEnds now history.turns call outcome next.turns := by
  cases step with
  | call _ ran =>
    have ends := perform_ends sound.indexed call now
    rw [ran] at ends
    exact ends

theorem TurnStep.clock_eq
    (step : TurnStep history ⟨call, now, outcome⟩ next) : next.clock = now := by
  cases step with
  | call => rfl

theorem TurnStep.granted_mono (step : TurnStep history event next) :
    ∀ lease ∈ history.granted, lease ∈ next.granted := by
  cases step with
  | call => exact fun lease member => List.mem_append_right _ member

variable {scope next : TurnScope}

structure ScopeSound (scope : TurnScope) : Prop where
  positive : 0 < scope.claim.leaseSeconds
  outside : scope.phase.outside = true → scope.coordination = none ∧
    scope.calls .renew = .idle ∧ scope.calls .release = .idle
  inside : scope.phase.outside = false →
    ∃ call, scope.calls .claim = .applied call (.ok (.found scope.coordination))
  created : scope.phase = .created → scope.calls .claim = .idle
  claims : ∀ call, (scope.calls .claim).call = some call → ∃ token, call = .claim scope.claim token
  renews : ∀ call, (scope.calls .renew).call = some call →
    ∃ lease, scope.lease = some lease ∧ call = .renew lease scope.claim.leaseSeconds
  releases : ∀ call, (scope.calls .release).call = some call →
    scope.closed = true ∧ ∃ lease, scope.lease = some lease ∧ call = .release lease
  settled : scope.phase = .exited true → ∀ lease, scope.lease = some lease →
    ∃ call done, scope.calls .release = .applied call (.ok (.settled done))

/-- The scope loses no more than its renewal and changes none of its calls. -/
structure Quiet (scope next : TurnScope) : Prop where
  claim : next.claim = scope.claim
  phase : next.phase = scope.phase
  coordination : next.coordination = scope.coordination
  calls : next.calls = scope.calls
  deadline : next.deadline = scope.deadline
  renewal : ∀ deadline, next.renewal = .waiting deadline → scope.renewal = .waiting deadline
  lost : scope.lost = true → next.lost = true
  requested : next.cancelRequested = scope.cancelRequested

namespace Quiet

theorem refl (scope : TurnScope) : Quiet scope scope :=
  ⟨rfl, rfl, rfl, rfl, rfl, fun _ => id, id, rfl⟩

theorem trans (earlier : Quiet scope middle) (later : Quiet middle next) : Quiet scope next :=
  ⟨later.claim.trans earlier.claim, later.phase.trans earlier.phase,
    later.coordination.trans earlier.coordination, later.calls.trans earlier.calls,
    later.deadline.trans earlier.deadline,
    fun deadline waiting => earlier.renewal deadline (later.renewal deadline waiting),
    fun lost => later.lost (earlier.lost lost), later.requested.trans earlier.requested⟩

theorem lose (scope : TurnScope) : Quiet scope scope.lose := by
  rw [TurnScope.lose]
  split
  case isTrue => exact .refl scope
  case isFalse => exact ⟨rfl, rfl, rfl, rfl, rfl, fun _ => id, fun _ => rfl, rfl⟩

theorem timeOut (scope : TurnScope) : Quiet scope { scope.lose with timer := none } :=
  (Quiet.lose scope).trans ⟨rfl, rfl, rfl, rfl, rfl, fun _ => id, id, rfl⟩

theorem checked (scope : TurnScope) (now : Int) : Quiet scope (scope.checked now) := by
  rw [TurnScope.checked]
  split
  case isTrue => exact .lose scope
  case isFalse => exact .refl scope

theorem stopRenewal (scope : TurnScope) : Quiet scope scope.stopRenewal :=
  (Quiet.lose scope).trans ⟨rfl, rfl, rfl, rfl, rfl, nofun, id, rfl⟩

theorem requireActive (scope : TurnScope) (now : Int) :
    Quiet scope (scope.requireActive now).2 := by
  rw [TurnScope.requireActive]
  cases scope.requireOwned with
  | error => exact .refl scope
  | ok =>
    dsimp only
    split
    case isTrue => split <;> exact .checked scope now
    case isFalse => exact .checked scope now

theorem waitSignal (scope : TurnScope) (now : Int) : Quiet scope (scope.waitSignal now).2 := by
  have checked := Quiet.checked scope now
  rw [TurnScope.waitSignal]
  cases scope.requireOwned with
  | error => exact .refl scope
  | ok =>
    dsimp only
    split
    case isTrue => split <;> exact checked
    case isFalse =>
      split
      case isTrue => exact checked.trans ⟨rfl, rfl, rfl, rfl, rfl, fun _ => id, id, rfl⟩
      case isFalse => exact checked.trans ⟨rfl, rfl, rfl, rfl, rfl, fun _ => id, id, rfl⟩

theorem renewFailed (scope : TurnScope) (failure : Option String) :
    Quiet scope (scope.renewFailed failure) := by
  cases failure with
  | none => exact .stopRenewal scope
  | some error =>
    rw [TurnScope.renewFailed]
    split
    case isTrue => exact .stopRenewal scope
    case isFalse =>
      have failed : Quiet scope { scope with failure := some error } :=
        ⟨rfl, rfl, rfl, rfl, rfl, fun _ => id, id, rfl⟩
      exact failed.trans (.stopRenewal _)

section

variable (quiet : Quiet scope next)
include quiet

theorem lease_eq : next.lease = scope.lease := by
  rw [TurnScope.lease, quiet.coordination, TurnScope.lease]

theorem closed_eq : next.closed = scope.closed := by
  rw [TurnScope.closed, quiet.phase, TurnScope.closed]

theorem granted_eq : next.granted = scope.granted := by
  rw [TurnScope.granted, quiet.calls, TurnScope.granted]

end

end Quiet

namespace ScopeSound

theorem quiet (sound : ScopeSound scope) (quiet : Quiet scope next) : ScopeSound next where
  positive := by
    rw [quiet.claim]
    exact sound.positive
  outside := by
    rw [quiet.phase, quiet.coordination, quiet.calls]
    exact sound.outside
  inside := by
    rw [quiet.phase, quiet.coordination, quiet.calls]
    exact sound.inside
  created := by
    rw [quiet.phase, quiet.calls]
    exact sound.created
  claims := by
    rw [quiet.claim, quiet.calls]
    exact sound.claims
  renews := by
    rw [quiet.claim, quiet.calls, quiet.lease_eq]
    exact sound.renews
  releases := by
    rw [quiet.closed_eq, quiet.calls, quiet.lease_eq]
    exact sound.releases
  settled := by
    rw [quiet.phase, quiet.calls, quiet.lease_eq]
    exact sound.settled

theorem claimAnswered_quiet (scope : TurnScope) (now : Int) (cancelled : Bool)
    (result : Option TurnCoordination) : ∃ phase requested, (phase = .entered ∨ phase = .cleaning) ∧
      Quiet { scope with
          phase := phase, coordination := result, cancelRequested := requested }
        (scope.claimAnswered now cancelled result) := by
  unfold TurnScope.claimAnswered
  dsimp only
  split
  case isTrue => exact ⟨.cleaning, _, .inr rfl, ⟨rfl, rfl, rfl, rfl, rfl, fun _ => id, id, rfl⟩⟩
  case isFalse =>
    split
    case h_1 => exact ⟨.entered, _, .inl rfl, ⟨rfl, rfl, rfl, rfl, rfl, fun _ => id, id, rfl⟩⟩
    case h_2 coordination =>
      split
      case isTrue => exact ⟨.entered, _, .inl rfl, ⟨rfl, rfl, rfl, rfl, rfl, fun _ => id, id, rfl⟩⟩
      case isFalse =>
        split
        case isTrue =>
          exact ⟨.cleaning, _, .inr rfl, ⟨rfl, rfl, rfl, rfl, rfl, fun _ => id, id, rfl⟩⟩
        case isFalse =>
          refine ⟨.entered, coordination.cancelRequested, .inl rfl, ?_⟩
          split
          case isTrue =>
            refine Quiet.trans ?_ (.lose _)
            exact ⟨rfl, rfl, rfl, rfl, rfl, fun _ => id, id, rfl⟩
          case isFalse => exact ⟨rfl, rfl, rfl, rfl, rfl, nofun, id, rfl⟩

section

variable (sound : ScopeSound scope)
include sound

theorem moves (phase : ScopePhase) (outside : phase.outside = scope.phase.outside)
    (started : phase ≠ .created) (closed : scope.closed = true → phase.closed = true)
    (settled : phase = .exited true → ∀ lease, scope.lease = some lease →
      ∃ call done, scope.calls .release = .applied call (.ok (.settled done))) :
    ScopeSound { scope with phase := phase } where
  positive := sound.positive
  outside early := sound.outside (outside.symm.trans early)
  inside late := sound.inside (outside.symm.trans late)
  created early := absurd early started
  claims := sound.claims
  renews := sound.renews
  releases call sent := ⟨closed (sound.releases call sent).1, (sound.releases call sent).2⟩
  settled := settled

theorem answered (outside : scope.phase.outside = true)
    (entered : phase = .entered ∨ phase = .cleaning)
    (answer : scope.calls .claim = .applied call (.ok (.found result))) :
    ScopeSound { scope with
      phase := phase, coordination := result, cancelRequested := requested } := by
  obtain ⟨_, renew, release⟩ := sound.outside outside
  have late : phase.outside = false := by
    obtain rfl | rfl := entered <;> rfl
  refine ⟨sound.positive, ?_, ?_, ?_, sound.claims, ?_, ?_, ?_⟩
  · intro early
    rw [late] at early
    cases early
  · exact fun _ => ⟨call, answer⟩
  · intro early
    change phase = .created at early
    rw [early] at late
    cases late
  · intro call sent
    change (scope.calls .renew).call = some call at sent
    rw [renew] at sent
    cases sent
  · intro call sent
    change (scope.calls .release).call = some call at sent
    rw [release] at sent
    cases sent
  · intro exited
    obtain rfl | rfl := entered <;> cases exited

theorem enter (unused : scope.phase = .created) :
    ScopeSound (scope.enter now token) := by
  obtain ⟨coordination, renew, release⟩ := sound.outside (by rw [unused]; rfl)
  refine ⟨sound.positive, fun _ => ⟨coordination, renew, release⟩, nofun, nofun, ?_, ?_, ?_, nofun⟩
  · intro call sent
    cases sent
    exact ⟨token, rfl⟩
  · intro call sent
    change (scope.calls .renew).call = some call at sent
    rw [renew] at sent
    cases sent
  · intro call sent
    change (scope.calls .release).call = some call at sent
    rw [release] at sent
    cases sent

end

section

variable (sound : ScopeSound scope)
include sound

theorem renewing (held : scope.lease = some lease) :
    ScopeSound (TurnScope.send { scope with renewal := .waiting deadline } .renew
      (.renew lease scope.claim.leaseSeconds)) := by
  refine ⟨sound.positive, ?_, sound.inside, sound.created, sound.claims, ?_, sound.releases,
    sound.settled⟩
  · intro early
    rw [TurnScope.lease, (sound.outside early).1] at held
    cases held
  · intro call sent
    cases sent
    exact ⟨lease, held, rfl⟩

theorem renew : ScopeSound (scope.renew now) := by
  rw [TurnScope.renew]
  split
  case isTrue => exact sound.quiet (.stopRenewal scope)
  case isFalse =>
    split
    case h_1 => exact sound
    case h_2 lease held => exact sound.renewing held

theorem renewAnswered :
    ScopeSound (scope.renewAnswered now deadline result) := by
  unfold TurnScope.renewAnswered
  split
  case isTrue => exact sound.quiet (.stopRenewal scope)
  case isFalse =>
    split
    case h_1 => exact sound.quiet (.stopRenewal scope)
    case h_2 =>
      split
      case isTrue => exact sound.quiet (.stopRenewal scope)
      case isFalse => exact ⟨sound.positive, sound.outside, sound.inside, sound.created,
        sound.claims, sound.renews, sound.releases, sound.settled⟩

theorem cleanup (cleaning : scope.phase = .cleaning) :
    ScopeSound scope.cleanup := by
  have stopped : ScopeSound { scope with timer := none, renewal := .finished } :=
    sound.quiet ⟨rfl, rfl, rfl, rfl, rfl, nofun, id, rfl⟩
  rw [TurnScope.cleanup]
  dsimp only
  split
  case h_1 none_held =>
    refine stopped.moves _ ?_ nofun (fun _ => rfl) ?_
    · rw [cleaning]
      rfl
    · intro _ lease held
      change scope.lease = some lease at held
      rw [none_held] at held
      cases held
  case h_2 lease held =>
    have inside := sound.inside (by rw [cleaning]; rfl)
    refine ⟨sound.positive, nofun, fun _ => inside, nofun, sound.claims, sound.renews, ?_, nofun⟩
    intro call sent
    cases sent
    exact ⟨rfl, lease, held, rfl⟩

theorem step (step : ScopeStep now scope event next) :
    ScopeSound next := by
  cases step with
  | enter unused => exact sound.enter unused
  | cancelClaim claiming =>
    exact sound.moves (.claiming true) (by rw [claiming]; rfl) nofun
      (by rw [TurnScope.closed, claiming]; nofun) nofun
  | @claimed cancelled call result claiming answer =>
    obtain ⟨phase, requested, entered, quiet⟩ := claimAnswered_quiet scope now cancelled result
    exact (sound.answered (by rw [claiming]; rfl) entered answer).quiet quiet
  | claimFailed claiming =>
    exact sound.moves .failed (by rw [claiming]; rfl) nofun
      (by rw [TurnScope.closed, claiming]; nofun) nofun
  | timeOut => exact sound.quiet (.timeOut scope)
  | renew => exact sound.renew
  | renewed => exact sound.renewAnswered
  | renewFailed => exact sound.quiet (.renewFailed scope _)
  | required => exact sound.quiet (.requireActive scope now)
  | waited => exact sound.quiet (.waitSignal scope now)
  | cancelWait => exact sound.quiet ⟨rfl, rfl, rfl, rfl, rfl, fun _ => id, id, rfl⟩
  | exit entered =>
    have closing : ScopeSound { scope with phase := .cleaning } :=
      sound.moves .cleaning (by rw [entered]; rfl) nofun (fun _ => rfl) nofun
    exact closing.quiet ⟨rfl, rfl, rfl, rfl, rfl, fun _ => id, id, rfl⟩
  | cleanup cleaning => exact sound.cleanup cleaning
  | @released call done releasing answer =>
    exact sound.moves (.exited true) (by rw [releasing]; rfl) nofun (fun _ => rfl)
      fun _ _ _ => ⟨call, done, answer⟩
  | releaseFailed releasing =>
    exact sound.moves (.exited false) (by rw [releasing]; rfl) nofun (fun _ => rfl) nofun

end

theorem arrive_calls (sent : scope.calls kind = .sent call)
    (unsent : ∀ call, scope.calls other ≠ .sent call) :
    (scope.arrive kind call outcome).calls other = scope.calls other := by
  have different : other ≠ kind := fun same => unsent call (same ▸ sent)
  exact Function.update_of_ne different _ _

theorem arrive_call (sent : scope.calls kind = .sent call) (other : ScopeCall) :
    ((scope.arrive kind call outcome).calls other).call = (scope.calls other).call := by
  change (Function.update scope.calls kind (.applied call outcome) other).call = _
  by_cases same : other = kind
  case pos =>
    rw [same, Function.update_self, sent]
    rfl
  case neg => rw [Function.update_of_ne same]

theorem arrive (sound : ScopeSound scope) (sent : scope.calls kind = .sent call) :
    ScopeSound (scope.arrive kind call outcome) where
  positive := sound.positive
  outside early := by
    obtain ⟨coordination, renew, release⟩ := sound.outside early
    rw [arrive_calls sent (by rw [renew]; nofun), arrive_calls sent (by rw [release]; nofun)]
    exact ⟨coordination, renew, release⟩
  inside late := by
    obtain ⟨claimed, answer⟩ := sound.inside late
    rw [arrive_calls sent (by rw [answer]; nofun)]
    exact ⟨claimed, answer⟩
  created early := by
    have idle := sound.created early
    rw [arrive_calls sent (by rw [idle]; nofun)]
    exact idle
  claims := by
    rw [arrive_call sent]
    exact sound.claims
  renews := by
    rw [arrive_call sent]
    exact sound.renews
  releases := by
    rw [arrive_call sent]
    exact sound.releases
  settled exited lease held := by
    obtain ⟨released, done, answer⟩ := sound.settled exited lease held
    rw [arrive_calls sent (by rw [answer]; nofun)]
    exact ⟨released, done, answer⟩

theorem entered (sound : ScopeSound scope) (held : scope.lease ≠ none)
    (unclosed : scope.closed = false) : scope.phase = .entered := by
  have inside : scope.phase.outside ≠ true := by
    intro outside
    rw [TurnScope.lease, (sound.outside outside).1] at held
    exact held rfl
  rw [TurnScope.closed] at unclosed
  cases phase : scope.phase with
  | entered => rfl
  | created | claiming | failed =>
    rw [phase] at inside
    exact absurd rfl inside
  | cleaning | releasing | exited =>
    rw [phase] at unclosed
    cases unclosed

end ScopeSound

/-- Nobody waits for what is there already, and the timer is set for whoever waits. -/
structure Attended (scope : TurnScope) : Prop where
  awake : 0 < scope.sleepers → scope.phase = .entered ∧ scope.lease ≠ none ∧
    scope.lost = false ∧ (scope.cancelRequested = true → scope.cancelDelivered = true)
  armed : scope.phase = .entered → scope.lease ≠ none → scope.lost = false →
    scope.timer = some scope.deadline

namespace Attended

theorem of_none_sleeps (quiet : scope.sleepers = 0)
    (armed : scope.phase = .entered → scope.lease ≠ none → scope.lost = false →
      scope.timer = some scope.deadline) : Attended scope where
  awake sleeping := by
    rw [quiet] at sleeping
    cases sleeping
  armed := armed

section

variable (attended : Attended scope)
include attended

theorem none_sleeps (left : scope.phase ≠ .entered) :
    scope.sleepers = 0 := by
  by_contra sleeping
  exact left (attended.awake (Nat.pos_of_ne_zero sleeping)).1

theorem lose : Attended scope.lose := by
  rw [TurnScope.lose]
  split
  case isTrue => exact attended
  case isFalse => exact ⟨nofun, nofun⟩

theorem checked : Attended (scope.checked now) := by
  rw [TurnScope.checked]
  split
  case isTrue => exact attended.lose
  case isFalse => exact attended

theorem stopRenewal : Attended scope.stopRenewal :=
  ⟨attended.lose.awake, attended.lose.armed⟩

theorem timeOut : Attended { scope.lose with timer := none } := by
  refine ⟨attended.lose.awake, ?_⟩
  intro entered _ unlost
  rw [TurnScope.lose] at entered unlost
  split at entered
  case isTrue closed =>
    rw [TurnScope.closed, entered] at closed
    cases closed
  case isFalse closed =>
    rw [if_neg closed] at unlost
    cases unlost

theorem claimAnswered (left : scope.phase ≠ .entered) :
    Attended (scope.claimAnswered now cancelled result) := by
  have quiet := attended.none_sleeps left
  unfold TurnScope.claimAnswered
  dsimp only
  split
  case isTrue => exact ⟨nofun, nofun⟩
  case isFalse =>
    split
    case h_1 => exact .of_none_sleeps quiet fun _ none_held => absurd rfl none_held
    case h_2 coordination =>
      split
      case isTrue unowned => exact .of_none_sleeps quiet fun _ none_held => absurd unowned none_held
      case isFalse =>
        rw [quiet, ite_self]
        split
        case isTrue => exact ⟨nofun, nofun⟩
        case isFalse =>
          split
          case isTrue => exact ⟨nofun, nofun⟩
          case isFalse => exact ⟨nofun, fun _ _ _ => rfl⟩

theorem requireActive : Attended (scope.requireActive now).2 := by
  rw [TurnScope.requireActive]
  cases scope.requireOwned with
  | error => exact attended
  | ok =>
    dsimp only
    split
    case isTrue => split <;> exact attended.checked
    case isFalse => exact attended.checked

end

theorem requireOwned_ok (owned : scope.requireOwned = .ok ⟨⟩) :
    scope.closed = false ∧ scope.lease ≠ none := by
  have open_held : ¬(scope.closed = true ∨ scope.lease = none) := by
    intro refused
    rw [TurnScope.requireOwned, refuse, if_pos refused] at owned
    cases owned
  rw [not_or, Bool.not_eq_true] at open_held
  exact open_held

section

variable (attended : Attended scope)
include attended

theorem waitSignal (sound : ScopeSound scope) : Attended (scope.waitSignal now).2 := by
  have checked : Attended (scope.checked now) := attended.checked
  have quiet := Quiet.checked scope now
  rw [TurnScope.waitSignal]
  cases owned : scope.requireOwned with
  | error => exact attended
  | ok =>
    obtain ⟨unclosed, held⟩ := requireOwned_ok owned
    dsimp only
    split
    case isTrue => split <;> exact checked
    case isFalse unlost =>
      split
      case isTrue =>
        refine ⟨fun sleeping => ?_, checked.armed⟩
        obtain ⟨entered, lease, kept, _⟩ := checked.awake sleeping
        exact ⟨entered, lease, kept, fun _ => rfl⟩
      case isFalse unasked =>
        refine ⟨fun _ => ⟨?_, ?_, Bool.eq_false_iff.mpr unlost, fun asked => ?_⟩, checked.armed⟩
        · change (scope.checked now).phase = .entered
          rw [quiet.phase]
          exact sound.entered held unclosed
        · change (scope.checked now).lease ≠ none
          rw [quiet.lease_eq]
          exact held
        · by_contra undelivered
          exact unasked ⟨asked, Bool.eq_false_iff.mpr undelivered⟩

theorem renew : Attended (scope.renew now) := by
  rw [TurnScope.renew]
  split
  case isTrue => exact attended.stopRenewal
  case isFalse =>
    split
    case h_1 => exact attended
    case h_2 lease held => exact ⟨attended.awake, attended.armed⟩

theorem renewAnswered : Attended (scope.renewAnswered now deadline result) := by
  unfold TurnScope.renewAnswered
  split
  case isTrue => exact attended.stopRenewal
  case isFalse =>
    split
    case h_1 => exact attended.stopRenewal
    case h_2 renewed =>
      split
      case isTrue => exact attended.stopRenewal
      case isFalse =>
        refine ⟨fun sleeping => ?_, fun _ _ _ => rfl⟩
        dsimp only at sleeping ⊢
        cases asked : renewed.cancelRequested with
        | true =>
          rw [asked] at sleeping
          cases sleeping
        | false =>
          rw [asked] at sleeping
          rw [Bool.or_false]
          exact attended.awake sleeping

theorem renewFailed {failure : Option String} : Attended (scope.renewFailed failure) := by
  cases failure with
  | none => exact attended.stopRenewal
  | some error =>
    rw [TurnScope.renewFailed]
    split
    case isTrue => exact attended.stopRenewal
    case isFalse =>
      have failed : Attended { scope with failure := some error } :=
        ⟨attended.awake, attended.armed⟩
      exact failed.stopRenewal

theorem cleanup (cleaning : scope.phase = .cleaning) : Attended scope.cleanup := by
  have quiet := attended.none_sleeps (by rw [cleaning]; nofun)
  rw [TurnScope.cleanup]
  dsimp only
  split
  case h_1 => exact .of_none_sleeps quiet nofun
  case h_2 => exact .of_none_sleeps quiet nofun

theorem step (sound : ScopeSound scope) (step : ScopeStep now scope event next) :
    Attended next := by
  cases step with
  | enter unused =>
    have quiet := attended.none_sleeps (by rw [unused]; nofun)
    exact .of_none_sleeps quiet nofun
  | cancelClaim claiming =>
    have quiet := attended.none_sleeps (by rw [claiming]; nofun)
    exact .of_none_sleeps quiet nofun
  | claimed claiming => exact attended.claimAnswered (by rw [claiming]; nofun)
  | claimFailed claiming =>
    have quiet := attended.none_sleeps (by rw [claiming]; nofun)
    exact .of_none_sleeps quiet nofun
  | timeOut => exact attended.timeOut
  | renew => exact attended.renew
  | renewed => exact attended.renewAnswered
  | renewFailed => exact attended.renewFailed
  | required => exact attended.requireActive
  | waited => exact attended.waitSignal sound
  | cancelWait asleep => exact ⟨fun _ => attended.awake asleep, attended.armed⟩
  | exit => exact .of_none_sleeps rfl nofun
  | cleanup cleaning => exact attended.cleanup cleaning
  | released releasing =>
    have quiet := attended.none_sleeps (by rw [releasing]; nofun)
    exact .of_none_sleeps quiet nofun
  | releaseFailed releasing =>
    have quiet := attended.none_sleeps (by rw [releasing]; nofun)
    exact .of_none_sleeps quiet nofun

end

end Attended

end Linktools.Cache
