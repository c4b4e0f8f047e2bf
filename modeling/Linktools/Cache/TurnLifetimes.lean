import Linktools.Cache.TurnAuthority

namespace Linktools.Cache

open Library Function

variable {now deadline since : Int} {history after : TurnHistory} {lease : TurnLease}
  {scope next : TurnScope} {event : ScopeEvent} {system last : ScopeSystem}
  {label : SystemEvent} {id : Nat}

inductive ScopeView (system : ScopeSystem) (id : Nat) (last : ScopeSystem) : SystemEvent → Prop
  | kept {label : SystemEvent} (same : last.scopes id = system.scopes id)
      (later : system.history.clock ≤ last.history.clock)
      (cancelled : ∀ lease ∈ system.history.cancelled, lease ∈ last.history.cancelled)
      (elsewhere : ∀ event, label ≠ .moved id event) : ScopeView system id last label
  | applied {kind : ScopeCall} {call : TurnCall} {outcome : Except TurnError TurnAnswer}
      (sent : (system.scopes id).calls kind = .sent call)
      (step : TurnStep system.history ⟨call, system.history.clock, outcome⟩ last.history)
      (arrived : last.scopes id = (system.scopes id).arrive kind call outcome) :
      ScopeView system id last (.applied id kind outcome)
  | moved {event : ScopeEvent} (history : last.history = system.history)
      (step : ScopeStep system.history.clock (system.scopes id) event (last.scopes id)) :
      ScopeView system id last (.moved id event)

theorem TurnStep.cancelled_mono {event : TurnEvent} (step : TurnStep history event after) :
    ∀ lease ∈ history.cancelled, lease ∈ after.cancelled := by
  cases step with
  | call => exact fun lease member => List.mem_append_right _ member

theorem SystemStep.view (step : SystemStep system label last) (id : Nat) :
    ScopeView system id last label := by
  cases step with
  | tick later => exact .kept rfl later (fun _ member => member) nofun
  | called _ step => exact .kept rfl (Int.le_of_eq step.clock_eq.symm) step.cancelled_mono nofun
  | @applied other kind call outcome history sent step =>
    by_cases own : id = other
    case pos =>
      subst own
      exact .applied sent step (update_self _ _ _)
    case neg =>
      exact .kept (update_of_ne own _ _) (Int.le_of_eq step.clock_eq.symm)
        step.cancelled_mono nofun
  | @moved other event next step =>
    by_cases own : id = other
    case pos =>
      subst own
      refine .moved rfl ?_
      change ScopeStep _ _ _ (update system.scopes id next id)
      rw [update_self]
      exact step
    case neg =>
      refine .kept (update_of_ne own _ _) (Int.le_refl _) (fun _ member => member) ?_
      intro event same
      cases same
      exact own rfl

def Passes (system : ScopeSystem) (id : Nat) : Prop :=
  ((system.scopes id).requireActive system.history.clock).1 = .ok ⟨⟩

/-- The scope may not go on, or the backend no longer holds its lease. -/
def OwnershipLost (system : ScopeSystem) (id : Nat) : Prop :=
  (system.scopes id).phase ≠ .created ∧ (system.scopes id).Ended system.history.clock ∨
    ∃ lease, (system.scopes id).granted = some lease ∧ ∀ turn, Live system.history.turns turn →
      turn.lease = lease → turn.expiresAt ≤ system.history.clock

theorem TurnScope.lose_lost (unclosed : scope.closed = false) : scope.lose.lost = true := by
  rw [TurnScope.lose, unclosed]
  rfl

theorem TurnScope.checked_of_kept (unclosed : scope.closed = false)
    (kept : (scope.checked now).lost = false) :
    scope.checked now = scope ∧ now < scope.deadline := by
  by_cases due : scope.deadline ≤ now
  case pos =>
    rw [TurnScope.checked, if_pos due, TurnScope.lose_lost unclosed] at kept
    cases kept
  case neg => exact ⟨if_neg due, Int.not_le.mp due⟩

theorem TurnScope.passes (passed : (scope.requireActive now).1 = .ok ⟨⟩) :
    scope.lease ≠ none ∧ ¬scope.Ended now := by
  rw [TurnScope.requireActive] at passed
  cases owned : scope.requireOwned with
  | error error =>
    rw [owned] at passed
    cases passed
  | ok =>
    rw [owned] at passed
    obtain ⟨unclosed, held⟩ := Attended.requireOwned_ok owned
    dsimp only at passed
    split at passed
    case isTrue => split at passed <;> cases passed
    case isFalse unlost =>
      obtain ⟨same, before⟩ := TurnScope.checked_of_kept unclosed (Bool.eq_false_iff.mpr unlost)
      rw [same] at unlost
      refine ⟨held, ?_⟩
      rintro (closed | lost | due)
      · rw [unclosed] at closed
        cases closed
      · exact unlost lost
      · exact Int.not_le.mpr before due

theorem ScopeSound.unreleased (sound : ScopeSound scope) (unclosed : scope.closed = false) :
    scope.calls .release = .idle := by
  have none_called := sound.releases
  cases sent : scope.calls .release with
  | idle => rfl
  | sent call =>
    have closed := (none_called call (by rw [sent]; rfl)).1
    rw [unclosed] at closed
    cases closed
  | applied call outcome =>
    have closed := (none_called call (by rw [sent]; rfl)).1
    rw [unclosed] at closed
    cases closed

section

variable (sound : ScopesSound system)
include sound

theorem ScopesSound.holds (granted : (system.scopes id).granted = some lease)
    (active : ¬(system.scopes id).Ended system.history.clock) :
    ∃ turn, Live system.history.turns turn ∧ turn.lease = lease ∧
      system.history.clock < turn.expiresAt := by
  rw [TurnScope.Ended, not_or, not_or, Bool.not_eq_true, Int.not_le] at active
  obtain ⟨unclosed, _, before⟩ := active
  obtain ⟨turn, stored, same, lasts⟩ :=
    (sound.held id).held ((sound.scopes id).unreleased unclosed) lease granted before
  exact ⟨turn, stored, same, Int.lt_of_lt_of_le before lasts⟩

theorem ScopesSound.passes (passed : Passes system id) :
    ∃ turn, Live system.history.turns turn ∧ (system.scopes id).granted = some turn.lease ∧
      system.history.clock < turn.expiresAt := by
  obtain ⟨held, active⟩ := TurnScope.passes passed
  obtain ⟨lease, owned⟩ := Option.ne_none_iff_exists'.mp held
  have granted := (sound.scopes id).granted_of_lease owned
  obtain ⟨turn, stored, rfl, unexpired⟩ := sound.holds granted active
  exact ⟨turn, stored, granted, unexpired⟩

theorem ScopesSound.exclusive (leftPasses : Passes system left) (rightPasses : Passes system right)
    (scope : (system.scopes left).claim.scope = (system.scopes right).claim.scope)
    (session : (system.scopes left).claim.sessionKey = (system.scopes right).claim.sessionKey) :
    left = right := by
  obtain ⟨leftTurn, leftLive, leftGranted, _⟩ := sound.passes leftPasses
  obtain ⟨rightTurn, rightLive, rightGranted, _⟩ := sound.passes rightPasses
  have same : leftTurn.lease.key = rightTurn.lease.key := by
    rw [((sound.held left).granted _ leftGranted).2, ((sound.held right).granted _ rightGranted).2,
      scope, session]
  rw [Indexed.eq_of_key leftLive rightLive same] at leftGranted
  exact sound.distinct left right _ leftGranted rightGranted

end

def Over (now : Int) (scope : TurnScope) : Prop :=
  scope.phase ≠ .created ∧ scope.Ended now

section

variable (ended : Over now scope)
include ended

theorem Over.quiet (quiet : Quiet scope next) : Over now next := by
  rw [Over, quiet.phase, TurnScope.Ended, quiet.closed_eq, quiet.deadline]
  refine ⟨ended.1, ?_⟩
  obtain closed | lost | due := ended.2
  · exact .inl closed
  · exact .inr (.inl (quiet.lost lost))
  · exact .inr (.inr due)

theorem Over.moves (started : phase ≠ .created)
    (closed : scope.closed = true → phase.closed = true) : Over now { scope with
      phase := phase, coordination := result, cancelRequested := requested } := by
  refine ⟨started, ?_⟩
  obtain isClosed | lost | due := ended.2
  · exact .inl (closed isClosed)
  · exact .inr (.inl lost)
  · exact .inr (.inr due)

theorem Over.step (step : ScopeStep now scope event next) :
    Over now next := by
  have unclosed {phase : ScopePhase} (here : scope.phase = phase) (opened : phase.closed = false)
      {later : ScopePhase} : scope.closed = true → later.closed = true := by
    intro closed
    rw [TurnScope.closed, here, opened] at closed
    cases closed
  cases step with
  | enter unused => exact absurd unused ended.1
  | cancelClaim claiming => exact ended.moves (by simp) (unclosed claiming rfl)
  | @claimed cancelled call result claiming answer =>
    obtain ⟨phase, _, entered, quiet⟩ := ScopeSound.claimAnswered_quiet scope now cancelled result
    refine Over.quiet (ended.moves ?_ (unclosed claiming rfl)) quiet
    obtain rfl | rfl := entered
    · simp
    · simp
  | claimFailed claiming => exact ended.moves (by simp) (unclosed claiming rfl)
  | timeOut => exact ended.quiet (.timeOut scope)
  | renew =>
    rw [TurnScope.renew, if_pos ended.2]
    exact ended.quiet (.stopRenewal scope)
  | renewed =>
    unfold TurnScope.renewAnswered
    rw [if_pos ended.2]
    exact ended.quiet (.stopRenewal scope)
  | renewFailed => exact ended.quiet (.renewFailed scope _)
  | required => exact ended.quiet (.requireActive scope now)
  | waited => exact ended.quiet (.waitSignal scope now)
  | cancelWait => exact ended.quiet ⟨rfl, rfl, rfl, rfl, rfl, fun _ => id, id, rfl⟩
  | exit => exact ⟨by rintro ⟨⟩, .inl rfl⟩
  | cleanup =>
    rw [TurnScope.cleanup]
    dsimp only
    split
    case h_1 => exact ⟨by rintro ⟨⟩, .inl rfl⟩
    case h_2 => exact ⟨by rintro ⟨⟩, .inl rfl⟩
  | released => exact ⟨by rintro ⟨⟩, .inl rfl⟩
  | releaseFailed => exact ⟨by rintro ⟨⟩, .inl rfl⟩

theorem Over.later {later : Int} (passed : now ≤ later) :
    Over later scope := by
  refine ⟨ended.1, ?_⟩
  obtain closed | lost | due := ended.2
  · exact .inl closed
  · exact .inr (.inl lost)
  · exact .inr (.inr (Int.le_trans due passed))

end

theorem Over.system_step (ended : Over system.history.clock (system.scopes id))
    (step : SystemStep system label last) : Over last.history.clock (last.scopes id) := by
  cases step.view id with
  | kept same later =>
    rw [same]
    exact ended.later later
  | applied _ ran arrived =>
    rw [arrived, ran.clock_eq]
    exact ended
  | moved history moves =>
    rw [history]
    exact ended.step moves

theorem ScopesSound.ended (sound : ScopesSound system) (lost : OwnershipLost system id) :
    Over system.history.clock (system.scopes id) := by
  obtain ended | ⟨lease, granted, expired⟩ := lost
  · exact ended
  · refine ⟨?_, ?_⟩
    · intro created
      rw [TurnScope.granted, (sound.scopes id).created created] at granted
      cases granted
    · by_contra active
      obtain ⟨turn, stored, same, unexpired⟩ := sound.holds granted active
      exact Int.not_le.mpr unexpired (expired turn stored same)

variable {events : List SystemEvent}

theorem never_passes_again (sound : ScopesSound system) (lost : OwnershipLost system id)
    (run : Machine.Run scopeMachine system events last) : ¬Passes last id := by
  have ended : Over last.history.clock (last.scopes id) := by
    have start := sound.ended lost
    clear lost sound
    induction run with
    | nil => exact start
    | cons step _ ih => exact ih (start.system_step step)
  intro passed
  exact (TurnScope.passes passed).2 ended.2

@[simp]
theorem TurnScope.lose_delivered : scope.lose.cancelDelivered = scope.cancelDelivered := by
  rw [TurnScope.lose]
  split <;> rfl

@[simp]
theorem TurnScope.checked_delivered :
    (scope.checked now).cancelDelivered = scope.cancelDelivered := by
  rw [TurnScope.checked]
  split
  case isTrue => exact TurnScope.lose_delivered
  case isFalse => rfl

@[simp]
theorem TurnScope.stopRenewal_delivered :
    scope.stopRenewal.cancelDelivered = scope.cancelDelivered :=
  TurnScope.lose_delivered

theorem ScopeStep.delivered (step : ScopeStep now scope event next) :
    event = .waited (.told .cancelRequested) ∧ scope.cancelDelivered = false ∧
        next.cancelDelivered = true ∨ event ≠ .waited (.told .cancelRequested) ∧
        next.cancelDelivered = scope.cancelDelivered := by
  cases step with
  | enter => exact .inr ⟨by simp, rfl⟩
  | cancelClaim => exact .inr ⟨by simp, rfl⟩
  | claimed =>
    refine .inr ⟨by simp, ?_⟩
    unfold TurnScope.claimAnswered TurnScope.close
    repeat' split
    all_goals rfl
  | claimFailed => exact .inr ⟨by simp, rfl⟩
  | timeOut => exact .inr ⟨by simp, TurnScope.lose_delivered⟩
  | renew =>
    refine .inr ⟨by simp, ?_⟩
    rw [TurnScope.renew]
    split
    case isTrue => exact TurnScope.stopRenewal_delivered
    case isFalse => split <;> rfl
  | renewed =>
    refine .inr ⟨by simp, ?_⟩
    unfold TurnScope.renewAnswered
    repeat' split
    all_goals first | rfl | exact TurnScope.stopRenewal_delivered
  | @renewFailed _ failure =>
    refine .inr ⟨by simp, ?_⟩
    cases failure with
    | none => exact TurnScope.stopRenewal_delivered
    | some error =>
      rw [TurnScope.renewFailed]
      split <;> exact TurnScope.stopRenewal_delivered
  | required =>
    refine .inr ⟨by simp, ?_⟩
    unfold TurnScope.requireActive
    split
    case h_1 => rfl
    case h_2 =>
      dsimp only
      split
      case isTrue => split <;> exact TurnScope.checked_delivered
      case isFalse => exact TurnScope.checked_delivered
  | waited =>
    unfold TurnScope.waitSignal
    split
    case h_1 => exact .inr ⟨by simp, rfl⟩
    case h_2 =>
      dsimp only
      split
      case isTrue =>
        split
        case h_1 => exact .inr ⟨by simp, TurnScope.checked_delivered⟩
        case h_2 => exact .inr ⟨by simp, TurnScope.checked_delivered⟩
      case isFalse =>
        split
        case isTrue asked =>
          refine .inl ⟨rfl, ?_, rfl⟩
          rw [← asked.2, TurnScope.checked_delivered]
        case isFalse => exact .inr ⟨by simp, TurnScope.checked_delivered⟩
  | cancelWait => exact .inr ⟨by simp, rfl⟩
  | exit => exact .inr ⟨by simp, rfl⟩
  | cleanup =>
    refine .inr ⟨by simp, ?_⟩
    rw [TurnScope.cleanup]
    dsimp only
    split <;> rfl
  | released => exact .inr ⟨by simp, rfl⟩
  | releaseFailed => exact .inr ⟨by simp, rfl⟩

def delivers (id : Nat) : SystemEvent → Bool
  | .moved other event => decide (other = id ∧ event = .waited (.told .cancelRequested))
  | _ => false

theorem SystemStep.delivered (step : SystemStep system label last) (id : Nat) :
    (delivers id label = true ∧ (system.scopes id).cancelDelivered = false ∧
        (last.scopes id).cancelDelivered = true) ∨ (delivers id label = false ∧
        (last.scopes id).cancelDelivered = (system.scopes id).cancelDelivered) := by
  cases step.view id with
  | kept same _ _ elsewhere =>
    refine .inr ⟨?_, by rw [same]⟩
    cases label with
    | moved other event =>
      refine decide_eq_false ?_
      rintro ⟨rfl, _⟩
      exact elsewhere event rfl
    | tick | called | applied => rfl
  | applied _ _ arrived =>
    refine .inr ⟨rfl, ?_⟩
    rw [arrived]
    rfl
  | moved history moves =>
    cases moves.delivered with
    | inl told => exact .inl ⟨decide_eq_true ⟨rfl, told.1⟩, told.2⟩
    | inr untold => exact .inr ⟨decide_eq_false fun same => untold.1 same.2, untold.2⟩

theorem countP_delivers (run : Machine.Run scopeMachine system events last) (id : Nat) :
    events.countP (delivers id) + (system.scopes id).cancelDelivered.toNat =
      (last.scopes id).cancelDelivered.toNat := by
  induction run with
  | nil => exact Nat.zero_add _
  | @cons first middle last label labels step rest ih =>
    cases SystemStep.delivered step id with
    | inl told =>
      obtain ⟨fires, before, delivered⟩ := told
      rw [delivered] at ih
      rw [List.countP_cons_of_pos fires, before, ← ih]
      rfl
    | inr untold =>
      obtain ⟨quiet, same⟩ := untold
      rw [List.countP_cons_of_neg (Bool.eq_false_iff.mp quiet), ← same]
      exact ih

/-- What a scope knows of a cancellation that happened at some time. -/
structure Aware (since : Int) (scope : TurnScope) : Prop where
  claiming : scope.phase.outside = true → scope.deadline ≤ since + scope.claim.leaseSeconds
  requested : since + scope.claim.leaseSeconds < scope.deadline → scope.cancelRequested = true
  pending : ∀ deadline, scope.renewal = .waiting deadline →
    since + scope.claim.leaseSeconds < deadline → ∀ call coordination,
      scope.calls .renew = .applied call (.ok (.found (some coordination))) →
        coordination.lease = scope.lease → coordination.cancelRequested = true

namespace Aware

section

variable (aware : Aware since scope)
include aware

theorem quiet (quiet : Quiet scope next) : Aware since next := by
  refine ⟨?_, ?_, ?_⟩
  · rw [quiet.phase, quiet.deadline, quiet.claim]
    exact aware.claiming
  · rw [quiet.deadline, quiet.claim, quiet.requested]
    exact aware.requested
  · rw [quiet.claim, quiet.calls, quiet.lease_eq]
    exact fun deadline waiting => aware.pending deadline (quiet.renewal deadline waiting)

theorem moves (outside : phase.outside = true → scope.phase.outside = true) :
    Aware since { scope with phase := phase } :=
  ⟨fun early => aware.claiming (outside early), aware.requested, aware.pending⟩

theorem step (sound : ScopeSound scope)
    (granted : scope.granted = some lease) (step : ScopeStep now scope event next) :
    Aware since next := by
  cases step with
  | enter unused =>
    rw [TurnScope.granted, sound.created unused] at granted
    cases granted
  | cancelClaim claiming => exact aware.moves fun _ => by rw [claiming]; rfl
  | @claimed cancelled call result claiming =>
    have early : scope.phase.outside = true := by
      rw [claiming]
      rfl
    obtain ⟨phase, requested, entered, quiet⟩ :=
      ScopeSound.claimAnswered_quiet scope now cancelled result
    have answered : Aware since { scope with
        phase := phase, coordination := result, cancelRequested := requested } := by
      refine ⟨fun _ => aware.claiming early, ?_, ?_⟩
      · exact fun later => absurd (aware.claiming early) (Int.not_le.mpr later)
      · intro _ _ _ call coordination answer
        change scope.calls .renew = _ at answer
        rw [(sound.outside early).2.1] at answer
        cases answer
    exact answered.quiet quiet
  | claimFailed claiming => exact aware.moves fun _ => by rw [claiming]; rfl
  | timeOut => exact aware.quiet (.timeOut scope)
  | renew =>
    rw [TurnScope.renew]
    split
    case isTrue => exact aware.quiet (.stopRenewal scope)
    case isFalse =>
      split
      case h_1 => exact aware
      case h_2 =>
        refine ⟨aware.claiming, aware.requested, ?_⟩
        intro _ _ _ call coordination answer
        cases answer
  | @renewed deadline call result waiting answer =>
    unfold TurnScope.renewAnswered
    split
    case isTrue => exact aware.quiet (.stopRenewal scope)
    case isFalse =>
      split
      case h_1 => exact aware.quiet (.stopRenewal scope)
      case h_2 renewed =>
        split
        case isTrue => exact aware.quiet (.stopRenewal scope)
        case isFalse accepted =>
          have agrees : scope.Agrees renewed := by
            by_contra differs
            exact accepted (.inl differs)
          have inside : scope.phase.outside = false := by
            by_contra outside
            rw [Bool.not_eq_false] at outside
            rw [(sound.outside outside).2.1] at answer
            cases answer
          refine ⟨fun early => ?_, fun later => ?_, by rintro _ ⟨⟩⟩
          · rw [inside] at early
            cases early
          · have asked := aware.pending deadline waiting later call renewed answer agrees.1
            change (scope.cancelRequested || renewed.cancelRequested) = true
            rw [asked, Bool.or_true]
  | renewFailed => exact aware.quiet (.renewFailed scope _)
  | required => exact aware.quiet (.requireActive scope now)
  | waited => exact aware.quiet (.waitSignal scope now)
  | cancelWait => exact aware.quiet ⟨rfl, rfl, rfl, rfl, rfl, fun _ => id, id, rfl⟩
  | exit =>
    have closing : Aware since { scope with phase := .cleaning } := aware.moves (by rintro ⟨⟩)
    exact closing.quiet ⟨rfl, rfl, rfl, rfl, rfl, fun _ => id, id, rfl⟩
  | cleanup =>
    rw [TurnScope.cleanup]
    dsimp only
    split
    case h_1 => exact ⟨by rintro ⟨⟩, aware.requested, by rintro _ ⟨⟩⟩
    case h_2 => exact ⟨by rintro ⟨⟩, aware.requested, by rintro _ ⟨⟩⟩
  | released => exact aware.moves (by rintro ⟨⟩)
  | releaseFailed => exact aware.moves (by rintro ⟨⟩)

theorem arrive (sound : ScopeSound scope) (turns : TurnsSound history)
    (sent : scope.calls kind = .sent call)
    (step : TurnStep history ⟨call, history.clock, outcome⟩ after)
    (granted : scope.granted = some lease) (cancelled : lease ∈ history.cancelled) :
    Aware since (scope.arrive kind call outcome) := by
  refine ⟨aware.claiming, aware.requested, ?_⟩
  intro deadline waiting later answered coordination answer same
  by_cases renewing : kind = .renew
  case pos =>
    subst renewing
    obtain ⟨held, owned, rfl⟩ := sound.renews call (by rw [sent]; rfl)
    rw [sound.granted_of_lease owned] at granted
    cases granted
    change update scope.calls .renew _ ScopeCall.renew = _ at answer
    rw [update_self] at answer
    cases answer
    obtain ⟨turn, stored, turn_lease, _, shown⟩ := (step.ends turns).of_renew (same.trans owned)
    rw [shown, (turns.step step).cancelled turn stored, turn_lease]
    exact step.cancelled_mono lease cancelled
  case neg =>
    change update scope.calls kind _ ScopeCall.renew = _ at answer
    rw [update_of_ne (Ne.symm renewing)] at answer
    exact aware.pending deadline waiting later answered coordination answer same

end

end Aware

theorem granted_kept (sent : scope.calls kind = .sent call) (granted : scope.granted = some lease) :
    (scope.arrive kind call outcome).granted = some lease := by
  cases kind with
  | claim =>
    rw [TurnScope.granted, sent] at granted
    cases granted
  | renew => exact granted
  | release => exact granted

structure Noticed (since : Int) (id : Nat) (lease : TurnLease) (system : ScopeSystem) : Prop where
  cancelled : lease ∈ system.history.cancelled
  granted : (system.scopes id).granted = some lease
  aware : Aware since (system.scopes id)

theorem Noticed.step (noticed : Noticed since id lease system) (sound : ScopesSound system)
    (step : SystemStep system label last) : Noticed since id lease last := by
  cases step.view id with
  | kept same _ cancelled =>
    refine ⟨cancelled lease noticed.cancelled, ?_, ?_⟩
    · rw [same]
      exact noticed.granted
    · rw [same]
      exact noticed.aware
  | applied sent ran arrived =>
    refine ⟨ran.cancelled_mono lease noticed.cancelled, ?_, ?_⟩
    · rw [arrived]
      exact granted_kept sent noticed.granted
    · rw [arrived]
      exact noticed.aware.arrive (sound.scopes id) sound.turns sent ran noticed.granted
        noticed.cancelled
  | moved history moves =>
    refine ⟨?_, ?_, noticed.aware.step (sound.scopes id) noticed.granted moves⟩
    · rw [history]
      exact noticed.cancelled
    · rw [moves.granted_eq (sound.scopes id)]
      exact noticed.granted

variable {turn : MemoryTurn}

theorem ScopesSound.noticed (sound : ScopesSound system) (stored : Live system.history.turns turn)
    (cancelled : turn.cancelRequested = true)
    (granted : (system.scopes id).granted = some turn.lease) :
    Noticed system.history.clock id turn.lease system := by
  have started : (system.scopes id).phase ≠ .created := by
    intro created
    rw [TurnScope.granted, (sound.scopes id).created created] at granted
    cases granted
  refine ⟨(sound.turns.cancelled turn stored).mp cancelled, granted, ?_, ?_, ?_⟩
  · exact fun _ => (sound.held id).bounded started
  · exact fun later => absurd ((sound.held id).bounded started) (Int.not_le.mpr later)
  · exact fun deadline waiting later =>
      absurd ((sound.held id).pending deadline waiting) (Int.not_le.mpr later)

theorem Noticed.run (noticed : Noticed since id lease system)
    (reachable : scopeMachine.Reachable system)
    (run : Machine.Run scopeMachine system events last) : Noticed since id lease last :=
  run.preserves (fun _ _ _ reachable noticed step => noticed.step (scopes_sound reachable) step)
    reachable noticed

theorem Aware.told (aware : Aware since scope) (later : since + scope.claim.leaseSeconds ≤ now) :
    (∃ error, (scope.waitSignal now).1 = .raised error) ∨
      (scope.waitSignal now).1 = .told .ownerLost ∨
        (scope.waitSignal now).2.cancelDelivered = true := by
  unfold TurnScope.waitSignal
  cases owned : scope.requireOwned with
  | error error => exact .inl ⟨error, rfl⟩
  | ok =>
    obtain ⟨unclosed, _⟩ := Attended.requireOwned_ok owned
    dsimp only
    split
    case isTrue =>
      split
      case h_1 failure _ => exact .inl ⟨.failure failure, rfl⟩
      case h_2 => exact .inr (.inl rfl)
    case isFalse unlost =>
      obtain ⟨same, before⟩ := TurnScope.checked_of_kept unclosed (Bool.eq_false_iff.mpr unlost)
      have requested := aware.requested (Int.lt_of_le_of_lt later before)
      split
      case isTrue => exact .inr (.inr rfl)
      case isFalse told =>
        refine .inr (.inr ?_)
        change (scope.checked now).cancelDelivered = true
        by_contra untold
        rw [Bool.not_eq_true] at untold
        rw [same] at told untold
        exact told ⟨requested, untold⟩

theorem ScopeStep.of_waited (step : ScopeStep now scope (.waited outcome) next) :
    outcome = (scope.waitSignal now).1 ∧ next = (scope.waitSignal now).2 := by
  cases step with
  | waited => exact ⟨rfl, rfl⟩

theorem ScopesSound.exited (sound : ScopesSound system)
    (exited : (system.scopes id).phase = .exited true)
    (granted : (system.scopes id).granted = some lease) (stored : Live system.history.turns turn) :
    turn.lease ≠ lease := by
  have inside : (system.scopes id).phase.outside = false := by
    rw [exited]
    rfl
  have owned := granted
  rw [(sound.scopes id).granted_eq inside] at owned
  obtain ⟨call, done, answer⟩ := (sound.scopes id).settled exited lease owned
  exact (sound.held id).gone call done answer lease granted turn stored

theorem ScopeStep.release_failed (step : ScopeStep now scope event next)
    (before : scope.phase ≠ .exited false) (exited : next.phase = .exited false) :
    event = .releaseFailed := by
  have quiet (quiet : Quiet scope next) : event = .releaseFailed :=
    absurd (quiet.phase.symm.trans exited) before
  cases step with
  | enter | cancelClaim | claimFailed | exit | released => cases exited
  | @claimed cancelled call result =>
    obtain ⟨phase, _, entered, answered⟩ :=
      ScopeSound.claimAnswered_quiet scope now cancelled result
    rw [answered.phase] at exited
    cases exited
    obtain impossible | impossible := entered
    · cases impossible
    · cases impossible
  | timeOut => exact quiet (.timeOut scope)
  | renew =>
    rw [TurnScope.renew] at exited
    split at exited
    case isTrue => exact absurd ((Quiet.stopRenewal scope).phase.symm.trans exited) before
    case isFalse => split at exited <;> exact absurd exited before
  | renewed =>
    unfold TurnScope.renewAnswered at exited
    split at exited
    case isTrue => exact absurd ((Quiet.stopRenewal scope).phase.symm.trans exited) before
    case isFalse =>
      split at exited
      case h_1 => exact absurd ((Quiet.stopRenewal scope).phase.symm.trans exited) before
      case h_2 =>
        split at exited
        case isTrue => exact absurd ((Quiet.stopRenewal scope).phase.symm.trans exited) before
        case isFalse => exact absurd exited before
  | renewFailed => exact quiet (.renewFailed scope _)
  | required => exact quiet (.requireActive scope now)
  | waited => exact quiet (.waitSignal scope now)
  | cancelWait => exact absurd exited before
  | cleanup =>
    rw [TurnScope.cleanup] at exited
    dsimp only at exited
    split at exited <;> cases exited
  | releaseFailed => rfl

theorem release_failed (run : Machine.Run scopeMachine system events last)
    (before : (system.scopes id).phase ≠ .exited false)
    (exited : (last.scopes id).phase = .exited false) :
    SystemEvent.moved id .releaseFailed ∈ events := by
  obtain ⟨earlier, label, later, first, after, rfl, _, step, _, kept, lost⟩ :=
    @Machine.Run.exists_loss _ _ _
      (fun system : ScopeSystem => (system.scopes id).phase ≠ .exited false) _ _ _
      run before (not_not.mpr exited)
  rw [not_not] at lost
  cases SystemStep.view step id with
  | kept same =>
    rw [same] at lost
    exact absurd lost kept
  | applied _ _ arrived =>
    rw [arrived] at lost
    exact absurd lost kept
  | moved _ moves =>
    rw [moves.release_failed kept lost]
    exact List.mem_append_right _ List.mem_cons_self

/-- Whoever passes a validity check has the unexpired lease at the backend, so no two scopes of a
session pass; ownership that is lost stays lost; a cancellation is told once, and by the first
wait after a lease's time unless ownership is lost; and a scope that has left has no lease,
unless its release failed. -/
theorem turn_authority_ends_with_its_lease {start : ScopeSystem} {events : List SystemEvent}
    (initial : scopeMachine.initial start) (run : Machine.Run scopeMachine start events system) :
    (∀ id, Passes system id → ∃ turn, Live system.history.turns turn ∧
      (system.scopes id).granted = some turn.lease ∧ system.history.clock < turn.expiresAt) ∧
    (∀ left right, Passes system left → Passes system right →
      (system.scopes left).claim.scope = (system.scopes right).claim.scope →
        (system.scopes left).claim.sessionKey = (system.scopes right).claim.sessionKey →
          left = right) ∧ (∀ id, OwnershipLost system id → ∀ later last,
      Machine.Run scopeMachine system later last → ¬Passes last id) ∧
    (∀ id, events.countP (delivers id) = (system.scopes id).cancelDelivered.toNat) ∧
    (∀ id, 0 < (system.scopes id).sleepers → (system.scopes id).lost = false ∧
      ((system.scopes id).cancelRequested = true → (system.scopes id).cancelDelivered = true) ∧
        (system.scopes id).timer = some (system.scopes id).deadline) ∧
    (∀ id turn, Live system.history.turns turn → turn.cancelRequested = true →
      (system.scopes id).granted = some turn.lease → ∀ later middle outcome last,
        Machine.Run scopeMachine system later middle →
          system.history.clock + (middle.scopes id).claim.leaseSeconds ≤ middle.history.clock →
            scopeMachine.step middle (.moved id (.waited outcome)) last →
              (∃ error, outcome = .raised error) ∨ outcome = .told .ownerLost ∨
                (last.scopes id).cancelDelivered = true) ∧
    ∀ id released, (system.scopes id).phase = .exited released →
      (∀ turn, Live system.history.turns turn → (system.scopes id).granted ≠ some turn.lease) ∨
          SystemEvent.moved id .releaseFailed ∈ events := by
  have reachable : scopeMachine.Reachable system := ⟨start, events, initial, run⟩
  have sound := scopes_sound reachable
  have fresh : ∀ id, (start.scopes id).phase = .created ∧
      (start.scopes id).cancelDelivered = false := by
    intro id
    obtain ⟨claim, renewSeconds, created⟩ := initial.2 id
    rw [(create_ok created).1]
    exact ⟨rfl, rfl⟩
  refine ⟨fun id => sound.passes, fun left right => sound.exclusive,
    fun id lost later last run => never_passes_again sound lost run, fun id => ?_, fun id => ?_,
    fun id turn stored cancelled granted later middle outcome last run past step => ?_,
    fun id released exited => ?_⟩
  · have count := countP_delivers run id
    rw [(fresh id).2] at count
    exact count
  · intro sleeping
    obtain ⟨entered, held, unlost, told⟩ := (sound.attended id).awake sleeping
    exact ⟨unlost, told, (sound.attended id).armed entered held unlost⟩
  · have noticed := (sound.noticed stored cancelled granted).run reachable run
    cases step.view id with
    | kept _ _ _ elsewhere => exact absurd rfl (elsewhere _)
    | moved _ moves =>
      obtain ⟨rfl, same⟩ := moves.of_waited
      rw [same]
      exact noticed.aware.told past
  · cases released with
    | true => exact .inl fun turn stored granted => sound.exited exited granted stored rfl
    | false => exact .inr (release_failed run (by rw [(fresh id).1]; nofun) exited)

def sampleScopes : ScopeSystem :=
  ⟨⟨{}, 0, [], []⟩, fun _ => { claim :=
    ⟨"scope", "session", "request", "digest", "execution", "owner", 30⟩, renewSeconds := 5 }⟩

/-- A scope that has claimed its session, beside one that has not. -/
theorem sample_active_scope : ∃ system : ScopeSystem, Passes system 0 ∧ ¬Passes system 1 ∧
    ∃ turn, Live system.history.turns turn ∧ (system.scopes 0).granted = some turn.lease ∧
      system.history.clock < turn.expiresAt := by
  have initial : scopeMachine.initial sampleScopes :=
    ⟨⟨0, rfl⟩, fun _ => ⟨(sampleScopes.scopes 0).claim, 5, rfl⟩⟩
  have called : TurnStep sampleScopes.history
      ⟨.claim (sampleScopes.scopes 0).claim "token", 0, _⟩ _ := .call (Int.le_refl 0) rfl
  have run : Machine.Run scopeMachine sampleScopes
      [.moved 0 (.enter "token"), .applied 0 .claim _, .moved 0 .claimed] _ :=
    .cons (SystemStep.moved (.enter rfl)) (.cons (SystemStep.applied rfl called)
      (.cons (SystemStep.moved (.claimed rfl rfl)) (.nil _)))
  have authority := turn_authority_ends_with_its_lease initial run
  refine ⟨_, ?_, ?_, authority.1 0 ?_⟩
  · rfl
  · nofun
  · rfl

end Linktools.Cache
