import Linktools.Cache.ScopeInvariants

namespace Linktools.Cache

open Library Function

/-! The authority of a scope is measured from the times at which it sent its calls, so it ends no
later than the lease does. -/

variable {now deadline : Int} {history after : TurnHistory} {lease : TurnLease}
  {scope next : TurnScope} {call : TurnCall} {outcome : Except TurnError TurnAnswer}

theorem ScopeSound.granted_eq (sound : ScopeSound scope) (inside : scope.phase.outside = false) :
    scope.granted = scope.lease := by
  obtain ⟨call, answer⟩ := sound.inside inside
  rw [TurnScope.granted, answer, TurnScope.lease]
  cases scope.coordination <;> rfl

theorem ScopeSound.granted_of_lease (sound : ScopeSound scope) (held : scope.lease = some lease) :
    scope.granted = some lease := by
  rw [← held]
  apply sound.granted_eq
  by_contra outside
  rw [Bool.not_eq_false] at outside
  rw [TurnScope.lease, (sound.outside outside).1] at held
  cases held

def Held (history : TurnHistory) (lease : TurnLease) (deadline : Int) : Prop :=
  history.clock < deadline →
    ∃ turn, Live history.turns turn ∧ turn.lease = lease ∧ deadline ≤ turn.expiresAt

theorem Held.later (held : Held history lease deadline) (later : history.clock ≤ now) :
    Held { history with clock := now } lease deadline :=
  fun before => held (Int.lt_of_le_of_lt later before)

theorem Held.called (held : Held history lease deadline) (sound : TurnsSound history)
    (step : TurnStep history ⟨call, history.clock, outcome⟩ after) (kept : call ≠ .release lease)
    (renewed : ∀ leaseSeconds, call = .renew lease leaseSeconds →
      deadline ≤ history.clock + leaseSeconds) : Held after lease deadline := by
  intro before
  rw [step.clock_eq] at before
  obtain ⟨turn, stored, rfl, outlives⟩ := held before
  obtain ⟨later, found, same, unchanged | ⟨leaseSeconds, renewing, extended⟩⟩ :=
    (step.ends sound).persists stored (Int.lt_of_lt_of_le before outlives) kept
  · refine ⟨later, found, same, ?_⟩
    rw [unchanged]
    exact outlives
  · refine ⟨later, found, same, ?_⟩
    rw [extended]
    exact renewed leaseSeconds renewing

structure ScopeHeld (history : TurnHistory) (scope : TurnScope) : Prop where
  granted : ∀ lease, scope.granted = some lease → lease ∈ history.granted ∧
    lease.key = turnKey scope.claim.scope scope.claim.sessionKey
  bounded : scope.phase ≠ .created → scope.deadline ≤ history.clock + scope.claim.leaseSeconds
  pending : ∀ deadline, scope.renewal = .waiting deadline →
    deadline ≤ history.clock + scope.claim.leaseSeconds
  held : scope.calls .release = .idle → ∀ lease, scope.granted = some lease →
    Held history lease scope.deadline
  extended : scope.calls .release = .idle → ∀ lease, scope.granted = some lease →
    ∀ deadline, scope.renewal = .waiting deadline → ∀ call coordination,
      scope.calls .renew = .applied call (.ok (.found (some coordination))) →
        coordination.lease = scope.lease → Held history lease deadline
  gone : ∀ call done, scope.calls .release = .applied call (.ok (.settled done)) →
    ∀ lease, scope.granted = some lease → ∀ turn, Live history.turns turn → turn.lease ≠ lease

namespace ScopeHeld

section

variable (held : ScopeHeld history scope)
include held

theorem tick (later : history.clock ≤ now) : ScopeHeld { history with clock := now } scope where
  granted := held.granted
  bounded started := Int.le_trans (held.bounded started) (Int.add_le_add_right later _)
  pending deadline waiting :=
    Int.le_trans (held.pending deadline waiting) (Int.add_le_add_right later _)
  held unreleased lease given := (held.held unreleased lease given).later later
  extended unreleased lease given deadline waiting call coordination answer same :=
    (held.extended unreleased lease given deadline waiting call coordination answer same).later
      later
  gone := held.gone

theorem called (sound : TurnsSound history) (local_sound : ScopeSound scope)
    (step : TurnStep history ⟨call, history.clock, outcome⟩ after)
    (kept : scope.calls .release = .idle → ∀ lease, scope.granted = some lease →
      call ≠ .release lease) (renewed : ∀ lease leaseSeconds, scope.granted = some lease →
      call = .renew lease leaseSeconds → leaseSeconds = scope.claim.leaseSeconds) :
    ScopeHeld after scope where
  granted lease given :=
    ⟨step.granted_mono lease (held.granted lease given).1, (held.granted lease given).2⟩
  bounded started := by
    rw [step.clock_eq]
    exact held.bounded started
  pending deadline waiting := by
    rw [step.clock_eq]
    exact held.pending deadline waiting
  held unreleased lease given := by
    refine (held.held unreleased lease given).called sound step (kept unreleased lease given) ?_
    intro leaseSeconds renewing
    rw [renewed lease leaseSeconds given renewing]
    refine held.bounded fun created => ?_
    rw [TurnScope.granted, local_sound.created created] at given
    cases given
  extended unreleased lease given deadline waiting answered coordination answer same := by
    have extended := held.extended unreleased lease given deadline waiting answered coordination
      answer same
    refine extended.called sound step (kept unreleased lease given) ?_
    intro leaseSeconds renewing
    rw [renewed lease leaseSeconds given renewing]
    exact held.pending deadline waiting
  gone released done answer lease given turn stored same := by
    cases (step.ends sound).origin stored with
    | inl fresh =>
      have fenced := sound.fenced lease (held.granted lease given).1
      rw [← same, fresh] at fenced
      exact Nat.not_succ_le_self _ fenced
    | inr earlier =>
      obtain ⟨earlier, found, lease_eq⟩ := earlier
      exact held.gone released done answer lease given earlier found (lease_eq.trans same)

theorem moved (claim : next.claim = scope.claim)
    (calls : next.calls = scope.calls) (deadline : next.deadline = scope.deadline)
    (started : next.phase ≠ .created → scope.phase ≠ .created)
    (renewal : ∀ deadline, next.renewal = .waiting deadline → scope.renewal = .waiting deadline)
    (lease : next.lease = scope.lease ∨ scope.calls .renew = .idle) : ScopeHeld history next := by
  have granted : next.granted = scope.granted := by
    rw [TurnScope.granted, calls, TurnScope.granted]
  refine ⟨?_, ?_, ?_, ?_, ?_, ?_⟩
  · rw [granted, claim]
    exact held.granted
  · rw [claim, deadline]
    exact fun moved => held.bounded (started moved)
  · rw [claim]
    exact fun deadline waiting => held.pending deadline (renewal deadline waiting)
  · rw [granted, calls, deadline]
    exact held.held
  · rw [granted, calls]
    intro unreleased given owned deadline waiting call coordination answer same
    cases lease with
    | inl unchanged =>
      rw [unchanged] at same
      exact held.extended unreleased given owned deadline (renewal deadline waiting) call
        coordination answer same
    | inr idle =>
      rw [idle] at answer
      cases answer
  · rw [granted, calls]
    exact held.gone

theorem quiet (quiet : Quiet scope next) : ScopeHeld history next :=
  held.moved quiet.claim quiet.calls quiet.deadline
    (fun started => by
      rw [← quiet.phase]
      exact started) quiet.renewal (.inl quiet.lease_eq)

theorem enter (sound : ScopeSound scope) (unused : scope.phase = .created) :
    ScopeHeld history (scope.enter history.clock token) := by
  obtain ⟨_, _, release⟩ := sound.outside (by rw [unused]; rfl)
  refine ⟨nofun, fun _ => Int.le_refl _, held.pending, nofun, nofun, ?_⟩
  intro call done answer
  change scope.calls .release = _ at answer
  rw [release] at answer
  cases answer

theorem renew : ScopeHeld history (scope.renew history.clock) := by
  rw [TurnScope.renew]
  split
  case isTrue => exact held.quiet (.stopRenewal scope)
  case isFalse =>
    split
    case h_1 => exact held
    case h_2 lease owned =>
      refine ⟨held.granted, held.bounded, ?_, held.held, ?_, held.gone⟩
      · intro deadline waiting
        cases waiting
        exact Int.le_refl _
      · intro _ _ _ _ _ call coordination answer
        cases answer

theorem renewAnswered (waiting : scope.renewal = .waiting deadline)
    (answer : scope.calls .renew = .applied call (.ok (.found result))) :
    ScopeHeld history (scope.renewAnswered history.clock deadline result) := by
  unfold TurnScope.renewAnswered
  split
  case isTrue => exact held.quiet (.stopRenewal scope)
  case isFalse =>
    split
    case h_1 => exact held.quiet (.stopRenewal scope)
    case h_2 renewed =>
      split
      case isTrue => exact held.quiet (.stopRenewal scope)
      case isFalse accepted =>
        have agrees : scope.Agrees renewed := by
          by_contra differs
          exact accepted (.inl differs)
        refine ⟨held.granted, fun _ => held.pending deadline waiting, nofun, ?_, nofun, held.gone⟩
        intro unreleased lease given
        exact held.extended unreleased lease given deadline waiting call renewed answer agrees.1

theorem cleanup (cleaning : scope.phase = .cleaning) : ScopeHeld history scope.cleanup := by
  have started : scope.phase ≠ .created := by
    rw [cleaning]
    simp
  rw [TurnScope.cleanup]
  dsimp only
  split
  case h_1 => exact held.moved rfl rfl rfl (fun _ => started) (by rintro _ ⟨⟩) (.inl rfl)
  case h_2 =>
    exact ⟨held.granted, fun _ => held.bounded started, by rintro _ ⟨⟩, by rintro ⟨⟩,
      by rintro ⟨⟩, by rintro _ _ ⟨⟩⟩

theorem step (sound : ScopeSound scope) (step : ScopeStep history.clock scope event next) :
    ScopeHeld history next := by
  have started {phase : ScopePhase} (here : scope.phase = phase) (later : phase ≠ .created) :
      scope.phase ≠ .created := by
    rw [here]
    exact later
  cases step with
  | enter unused => exact held.enter sound unused
  | cancelClaim claiming =>
    exact held.moved rfl rfl rfl (fun _ => started claiming nofun) (fun _ => id) (.inl rfl)
  | @claimed cancelled call result claiming answer =>
    obtain ⟨phase, requested, _, quiet⟩ :=
      ScopeSound.claimAnswered_quiet scope history.clock cancelled result
    have idle := (sound.outside (by rw [claiming]; rfl)).2.1
    have answered : ScopeHeld history { scope with
        phase := phase, coordination := result, cancelRequested := requested } :=
      held.moved rfl rfl rfl (fun _ => started claiming nofun) (fun _ => id) (.inr idle)
    exact answered.quiet quiet
  | claimFailed claiming =>
    exact held.moved rfl rfl rfl (fun _ => started claiming nofun) (fun _ => id) (.inl rfl)
  | timeOut => exact held.quiet (.timeOut scope)
  | renew => exact held.renew
  | renewed waiting answer => exact held.renewAnswered waiting answer
  | renewFailed => exact held.quiet (.renewFailed scope _)
  | required => exact held.quiet (.requireActive scope history.clock)
  | waited => exact held.quiet (.waitSignal scope history.clock)
  | cancelWait => exact held.quiet ⟨rfl, rfl, rfl, rfl, rfl, fun _ => id, id, rfl⟩
  | exit entered =>
    exact held.moved rfl rfl rfl (fun _ => started entered nofun) (fun _ => id) (.inl rfl)
  | cleanup cleaning => exact held.cleanup cleaning
  | released releasing =>
    exact held.moved rfl rfl rfl (fun _ => started releasing nofun) (fun _ => id) (.inl rfl)
  | releaseFailed releasing =>
    exact held.moved rfl rfl rfl (fun _ => started releasing nofun) (fun _ => id) (.inl rfl)

end

theorem granted_arrive_claim (granted : (scope.arrive .claim call outcome).granted = some lease) :
    ∃ coordination, outcome = .ok (.found (some coordination)) ∧
      coordination.lease = some lease := by
  unfold TurnScope.granted TurnScope.arrive at granted
  simp only [update_self] at granted
  split at granted
  case h_1 coordination same =>
    cases same
    exact ⟨coordination, rfl, granted⟩
  case h_2 => cases granted

section

variable (held : ScopeHeld after scope)
include held

section

variable (sound : ScopeSound scope)
include sound

section

variable (turns : TurnsSound history)
include turns

theorem arrive_claim (sent : scope.calls .claim = .sent call)
    (step : TurnStep history ⟨call, history.clock, outcome⟩ after) :
    ScopeHeld after (scope.arrive .claim call outcome) := by
  have outside : scope.phase.outside = true := by
    by_contra inside
    obtain ⟨_, answer⟩ := sound.inside (Bool.eq_false_iff.mpr inside)
    rw [sent] at answer
    cases answer
  have started : scope.phase ≠ .created := by
    intro created
    rw [sound.created created] at sent
    cases sent
  obtain ⟨_, renew, release⟩ := sound.outside outside
  obtain ⟨token, rfl⟩ := sound.claims call (by rw [sent]; rfl)
  refine ⟨?_, held.bounded, held.pending, ?_, ?_, ?_⟩
  · intro lease granted
    obtain ⟨coordination, rfl, owned⟩ := granted_arrive_claim granted
    obtain ⟨_, key, _⟩ := (step.ends turns).of_claim owned
    refine ⟨?_, key⟩
    cases step with
    | call =>
      rw [grantedBy, owned]
      exact List.mem_cons_self
  · intro _ lease granted before
    obtain ⟨coordination, rfl, owned⟩ := granted_arrive_claim granted
    obtain ⟨_, _, turn, stored, same, lasts⟩ := (step.ends turns).of_claim owned
    refine ⟨turn, stored, same, ?_⟩
    rw [lasts, ← step.clock_eq]
    exact held.bounded started
  · intro _ lease _ deadline _ answered coordination answer
    change scope.calls .renew = _ at answer
    rw [renew] at answer
    cases answer
  · intro released done answer
    change scope.calls .release = _ at answer
    rw [release] at answer
    cases answer

theorem arrive_renew (sent : scope.calls .renew = .sent call)
    (step : TurnStep history ⟨call, history.clock, outcome⟩ after) :
    ScopeHeld after (scope.arrive .renew call outcome) := by
  obtain ⟨lease, owned, rfl⟩ := sound.renews call (by rw [sent]; rfl)
  refine ⟨held.granted, held.bounded, held.pending, held.held, ?_, held.gone⟩
  intro _ given granted deadline waiting answered coordination answer same before
  change update scope.calls .renew _ ScopeCall.renew = _ at answer
  rw [update_self] at answer
  cases answer
  change scope.granted = some given at granted
  rw [sound.granted_of_lease owned] at granted
  cases granted
  obtain ⟨turn, stored, same, lasts, _⟩ := (step.ends turns).of_renew (same.trans owned)
  refine ⟨turn, stored, same, ?_⟩
  rw [lasts, ← step.clock_eq]
  exact held.pending deadline waiting

theorem arrive_release (sent : scope.calls .release = .sent call)
    (step : TurnStep history ⟨call, history.clock, outcome⟩ after) :
    ScopeHeld after (scope.arrive .release call outcome) := by
  obtain ⟨_, lease, owned, rfl⟩ := sound.releases call (by rw [sent]; rfl)
  have unreleased : ¬(scope.arrive .release (.release lease) outcome).calls .release = .idle := by
    change ¬update scope.calls .release _ ScopeCall.release = .idle
    rw [update_self]
    nofun
  refine ⟨held.granted, held.bounded, held.pending, fun idle => absurd idle unreleased,
    fun idle => absurd idle unreleased, ?_⟩
  intro released done answer given granted turn stored
  change update scope.calls .release _ ScopeCall.release = _ at answer
  rw [update_self] at answer
  cases answer
  change scope.granted = some given at granted
  rw [sound.granted_of_lease owned] at granted
  cases granted
  exact (step.ends turns).of_release stored

end

end

end

theorem arrive (held : ScopeHeld history scope) (sound : ScopeSound scope)
    (turns : TurnsSound history) (sent : scope.calls kind = .sent call)
    (step : TurnStep history ⟨call, history.clock, outcome⟩ after) :
    ScopeHeld after (scope.arrive kind call outcome) := by
  cases kind with
  | claim =>
    obtain ⟨token, claiming⟩ := sound.claims call (by rw [sent]; rfl)
    have kept := held.called turns sound step
      (fun _ _ _ => by rw [claiming]; nofun) (fun _ _ _ => by rw [claiming]; nofun)
    exact kept.arrive_claim sound turns sent step
  | renew =>
    obtain ⟨lease, owned, renewing⟩ := sound.renews call (by rw [sent]; rfl)
    have same : ∀ lease leaseSeconds, scope.granted = some lease →
        call = .renew lease leaseSeconds → leaseSeconds = scope.claim.leaseSeconds := by
      intro _ _ _ again
      rw [renewing] at again
      cases again
      rfl
    have kept := held.called turns sound step (fun _ _ _ => by rw [renewing]; nofun) same
    exact kept.arrive_renew sound turns sent step
  | release =>
    obtain ⟨_, lease, owned, releasing⟩ := sound.releases call (by rw [sent]; rfl)
    have kept := held.called turns sound step
      (fun idle => absurd (idle.symm.trans sent) (by nofun))
      (fun _ _ _ => by rw [releasing]; nofun)
    exact kept.arrive_release sound turns sent step

end ScopeHeld

structure ScopesSound (system : ScopeSystem) : Prop where
  turns : TurnsSound system.history
  scopes : ∀ id, ScopeSound (system.scopes id)
  attended : ∀ id, Attended (system.scopes id)
  held : ∀ id, ScopeHeld system.history (system.scopes id)
  distinct : ∀ left right lease, (system.scopes left).granted = some lease →
    (system.scopes right).granted = some lease → left = right

theorem TurnsSound.later (sound : TurnsSound history) : TurnsSound { history with clock := now } :=
  ⟨sound.indexed, sound.fenced, sound.ordered, sound.live, sound.cancelled, sound.known⟩

section

variable (sound : ScopeSound scope)
include sound

theorem ScopeStep.granted_eq (step : ScopeStep now scope event next) :
    next.granted = scope.granted := by
  cases step with
  | enter unused =>
    rw [TurnScope.granted, TurnScope.granted, sound.created unused]
    rfl
  | cancelClaim => rfl
  | @claimed cancelled call result =>
    obtain ⟨_, _, _, quiet⟩ := ScopeSound.claimAnswered_quiet scope now cancelled result
    exact quiet.granted_eq
  | claimFailed => rfl
  | timeOut => exact (Quiet.timeOut scope).granted_eq
  | renew =>
    rw [TurnScope.renew]
    split
    case isTrue => exact (Quiet.stopRenewal scope).granted_eq
    case isFalse => split <;> rfl
  | renewed =>
    unfold TurnScope.renewAnswered
    split
    case isTrue => exact (Quiet.stopRenewal scope).granted_eq
    case isFalse =>
      split
      case h_1 => exact (Quiet.stopRenewal scope).granted_eq
      case h_2 =>
        split
        case isTrue => exact (Quiet.stopRenewal scope).granted_eq
        case isFalse => rfl
  | renewFailed => exact (Quiet.renewFailed scope _).granted_eq
  | required => exact (Quiet.requireActive scope now).granted_eq
  | waited => exact (Quiet.waitSignal scope now).granted_eq
  | cancelWait => rfl
  | exit => rfl
  | cleanup =>
    rw [TurnScope.cleanup]
    dsimp only
    split <;> rfl
  | released => rfl
  | releaseFailed => rfl

theorem granted_arrive (turns : TurnsSound history) (sent : scope.calls kind = .sent call)
    (step : TurnStep history ⟨call, history.clock, outcome⟩ after)
    (granted : (scope.arrive kind call outcome).granted = some lease) :
    scope.granted = some lease ∨ lease.fence = history.turns.fence + 1 := by
  cases kind with
  | claim =>
    obtain ⟨token, rfl⟩ := sound.claims call (by rw [sent]; rfl)
    obtain ⟨coordination, rfl, owned⟩ := ScopeHeld.granted_arrive_claim granted
    exact .inr ((step.ends turns).of_claim owned).1
  | renew => exact .inl granted
  | release => exact .inl granted

theorem ScopeSound.holder (sent : scope.calls kind = .sent call)
    (holder : ByHolder call lease) : scope.granted = some lease := by
  cases kind with
  | claim =>
    obtain ⟨token, rfl⟩ := sound.claims call (by rw [sent]; rfl)
    obtain ⟨_, impossible⟩ | impossible := holder
    · cases impossible
    · cases impossible
  | renew =>
    obtain ⟨held, owned, rfl⟩ := sound.renews call (by rw [sent]; rfl)
    obtain ⟨_, same⟩ | impossible := holder
    · cases same
      exact sound.granted_of_lease owned
    · cases impossible
  | release =>
    obtain ⟨_, held, owned, rfl⟩ := sound.releases call (by rw [sent]; rfl)
    obtain ⟨_, impossible⟩ | same := holder
    · cases impossible
    · cases same
      exact sound.granted_of_lease owned

end

theorem ScopeHeld.foreign (held : ScopeHeld history scope) (turns : TurnsSound history)
    (sound : ScopeSound scope) (step : TurnStep history ⟨call, history.clock, outcome⟩ after)
    (foreign : ∀ lease, scope.granted = some lease → ¬ByHolder call lease) :
    ScopeHeld after scope := by
  refine held.called turns sound step ?_ ?_
  · intro _ lease granted releasing
    exact foreign lease granted (.inr releasing)
  · intro lease leaseSeconds granted renewing
    exact absurd (.inl ⟨leaseSeconds, renewing⟩) (foreign lease granted)

variable {system : ScopeSystem}

theorem ScopesSound.step (sound : ScopesSound system) (step : SystemStep system label last) :
    ScopesSound last := by
  cases step with
  | tick later =>
    exact ⟨sound.turns.later, sound.scopes, sound.attended,
      fun id => (sound.held id).tick later, sound.distinct⟩
  | @called call outcome history foreign step =>
    refine ⟨sound.turns.step step, sound.scopes, sound.attended, fun id => ?_, sound.distinct⟩
    exact (sound.held id).foreign sound.turns (sound.scopes id) step (foreign id)
  | @applied id kind call outcome history sent step =>
    have granted : ∀ other lease, (update system.scopes id
        ((system.scopes id).arrive kind call outcome) other).granted = some lease →
          (system.scopes other).granted = some lease ∨
            (other = id ∧ lease.fence = system.history.turns.fence + 1) := by
      refine (forall_update_iff _ fun other (scope : TurnScope) => ∀ lease,
        scope.granted = some lease → (system.scopes other).granted = some lease ∨
          (other = id ∧ lease.fence = system.history.turns.fence + 1)).mpr ⟨?_, ?_⟩
      · intro lease granted
        obtain kept | fresh := granted_arrive (sound.scopes id) sound.turns sent step granted
        · exact .inl kept
        · exact .inr ⟨rfl, fresh⟩
      · exact fun _ _ _ => .inl
    have fresh : ∀ other lease, (system.scopes other).granted = some lease →
        lease.fence ≠ system.history.turns.fence + 1 := by
      intro other lease granted same
      have fenced := sound.turns.fenced lease ((sound.held other).granted lease granted).1
      rw [same] at fenced
      exact Nat.not_succ_le_self _ fenced
    refine ⟨sound.turns.step step, ?_, ?_, ?_, ?_⟩
    · apply (forall_update_iff _ fun _ => ScopeSound).mpr
      exact ⟨(sound.scopes id).arrive sent, fun other _ => sound.scopes other⟩
    · apply (forall_update_iff _ fun _ => Attended).mpr
      exact ⟨⟨(sound.attended id).awake, (sound.attended id).armed⟩,
        fun other _ => sound.attended other⟩
    · apply (forall_update_iff _ fun _ => ScopeHeld history).mpr
      refine ⟨(sound.held id).arrive (sound.scopes id) sound.turns sent step, ?_⟩
      intro other different
      apply (sound.held other).foreign sound.turns (sound.scopes other) step
      intro lease granted holder
      exact different (sound.distinct other id lease granted ((sound.scopes id).holder sent holder))
    · intro left right lease leftGranted rightGranted
      cases granted left lease leftGranted with
      | inl leftKept =>
        cases granted right lease rightGranted with
        | inl rightKept => exact sound.distinct left right lease leftKept rightKept
        | inr rightFresh => exact absurd rightFresh.2 (fresh left lease leftKept)
      | inr leftFresh =>
        cases granted right lease rightGranted with
        | inl rightKept => exact absurd leftFresh.2 (fresh right lease rightKept)
        | inr rightFresh => exact leftFresh.1.trans rightFresh.1.symm
  | @moved id event next step =>
    have granted : ∀ other, (update system.scopes id next other).granted =
        (system.scopes other).granted := by
      apply (forall_update_iff _ fun other (scope : TurnScope) =>
        scope.granted = (system.scopes other).granted).mpr
      exact ⟨step.granted_eq (sound.scopes id), fun _ _ => rfl⟩
    refine ⟨sound.turns, ?_, ?_, ?_, ?_⟩
    · apply (forall_update_iff _ fun _ => ScopeSound).mpr
      exact ⟨(sound.scopes id).step step, fun other _ => sound.scopes other⟩
    · apply (forall_update_iff _ fun _ => Attended).mpr
      exact ⟨(sound.attended id).step (sound.scopes id) step, fun other _ => sound.attended other⟩
    · apply (forall_update_iff _ fun _ => ScopeHeld system.history).mpr
      exact ⟨(sound.held id).step (sound.scopes id) step, fun other _ => sound.held other⟩
    · intro left right lease leftGranted rightGranted
      rw [granted] at leftGranted rightGranted
      exact sound.distinct left right lease leftGranted rightGranted

theorem create_ok (created : TurnScope.create claim renewSeconds = .ok scope) :
    scope = { claim := claim, renewSeconds := renewSeconds } ∧ 0 < claim.leaseSeconds := by
  by_cases fitting : 0 < renewSeconds ∧ renewSeconds < claim.leaseSeconds
  case pos =>
    rw [TurnScope.create, refuse, if_neg (not_not.mpr fitting)] at created
    cases created
    exact ⟨rfl, Int.lt_trans fitting.1 fitting.2⟩
  case neg =>
    rw [TurnScope.create, refuse, if_pos fitting] at created
    cases created

theorem scopes_sound (reachable : scopeMachine.Reachable system) : ScopesSound system := by
  refine reachable.invariant ?_ ?_
  · rintro ⟨history, scopes⟩ ⟨⟨clock, turns⟩, created⟩
    change history = _ at turns
    subst turns
    have fresh : ∀ id, ∃ claim renewSeconds, scopes id =
        { claim := claim, renewSeconds := renewSeconds } ∧ 0 < claim.leaseSeconds := by
      intro id
      obtain ⟨claim, renewSeconds, created⟩ := created id
      exact ⟨claim, renewSeconds, create_ok created⟩
    refine ⟨⟨.start, nofun, .nil, nofun, nofun, nofun⟩, fun id => ?_, fun id => ?_,
      fun id => ?_, ?_⟩
    · obtain ⟨claim, renewSeconds, same, positive⟩ := fresh id
      change ScopeSound (scopes id)
      rw [same]
      exact ⟨positive, fun _ => ⟨rfl, rfl, rfl⟩, nofun, fun _ => rfl, nofun, nofun, nofun, nofun⟩
    · obtain ⟨claim, renewSeconds, same, _⟩ := fresh id
      change Attended (scopes id)
      rw [same]
      exact ⟨nofun, nofun⟩
    · obtain ⟨claim, renewSeconds, same, _⟩ := fresh id
      change ScopeHeld _ (scopes id)
      rw [same]
      exact ⟨nofun, fun started => absurd rfl started, nofun, nofun, nofun, nofun⟩
    · intro left right lease granted
      obtain ⟨claim, renewSeconds, same, _⟩ := fresh left
      change (scopes left).granted = some lease at granted
      rw [same] at granted
      cases granted
  · intro first event last _ sound step
    exact sound.step step

end Linktools.Cache
