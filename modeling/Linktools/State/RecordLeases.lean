import Linktools.State.Atomicity

namespace Linktools.State

open Linktools.Core Library RecordLeaseTransition

/-! Leases of one record. Owners change them by compare-and-set at the revision that they have
read, or end them with the write that follows a guard; each owner remembers its last answer. -/

namespace StoredRecord

variable (record : StoredRecord)

def transitionLease (expected : Int) (transition : RecordLeaseTransition) (now : Time) :
    Except Failure (Option StoredRecord) := do
  MemoryTransaction.requireRevision expected
  if (record.storageRevision : Int) ≠ expected then return none
  else transition.apply record now

/-- The terminal write: the lease is cleared under its fence, with a new state and new data. -/
def retire (state : Option String) (data : JsonMapping) : Except Failure StoredRecord :=
  match checked : checkRecordIdentity record.keyDigest record.scopeDigest record.parentDigest
      record.kind record.sortKey state with
  | .ok () => .ok { record with
      storageRevision := record.storageRevision + 1
      state := state
      leaseOwner := none
      leaseExpiresAt := none
      data := data
      identified := checked }
  | .error error => .error (.raised error)

def retireGuarded (guarded : Option StoredRecord) (state : Option String) (data : JsonMapping) :
    Except Failure (Option StoredRecord) :=
  match guarded with
  | none => .ok none
  | some guarded => some <$> retire guarded state data

end StoredRecord

inductive LeaseRequest
  | change (transition : RecordLeaseTransition)
  | terminal (guard : RecordLeaseTransition) (guards : guard.operation.Guards)
      (state : Option String) (data : JsonMapping)

def LeaseRequest.proof : LeaseRequest → RecordLeaseTransition
  | .change transition => transition
  | .terminal guard _ _ _ => guard

structure LeaseCall where
  expected : Int
  request : LeaseRequest
  now : Time
  answer : Except Failure (Option StoredRecord)

structure LeaseSystem where
  record : StoredRecord
  clock : Time
  held : String → Option (Nat × Time)

namespace LeaseRequest

def perform (request : LeaseRequest) (record : StoredRecord) (expected : Int) (now : Time) :
    Except Failure (Option StoredRecord) :=
  match request with
  | .change transition => record.transitionLease expected transition now
  | .terminal guard _ state data => do
    let guarded ← record.transitionLease expected guard now
    StoredRecord.retireGuarded guarded state data

/-- Whether an answer tells the owner of the request about its lease. -/
def Informs (request : LeaseRequest) : Prop :=
  match request with
  | .change transition => ¬transition.operation.Guards
  | .terminal guard _ _ _ => guard.operation = .guard

instance {request : LeaseRequest} : Decidable request.Informs := by
  unfold Informs
  cases request <;> infer_instance

end LeaseRequest

/-- What a record says of its lease: the fence and the expiry, when it has one. -/
def StoredRecord.lease? (record : StoredRecord) : Option (Nat × Time) :=
  record.leaseExpiresAt.map fun expiry => (record.leaseFence, expiry)

namespace LeaseSystem

def remember (held : String → Option (Nat × Time)) (request : LeaseRequest)
    (candidate : StoredRecord) : String → Option (Nat × Time) :=
  match request.proof.owner with
  | some owner => if request.Informs then Function.update held owner candidate.lease? else held
  | none => held

def after (system : LeaseSystem) (call : LeaseCall) : LeaseSystem :=
  match call.answer with
  | .ok (some candidate) => {
      record := candidate
      clock := call.now
      held := remember system.held call.request candidate }
  | _ => { system with clock := call.now }

def machine : Machine LeaseSystem LeaseCall where
  initial system := ∀ owner, system.held owner =
    if system.record.leaseOwner = some owner then system.record.lease? else none
  step before call next :=
    before.clock ≤ call.now ∧
      call.answer = call.request.perform before.record call.expected call.now ∧
      next = before.after call

def Believes (system : LeaseSystem) (owner : String) (instant : Time) : Prop :=
  ∃ fence expiry, system.held owner = some (fence, expiry) ∧ instant < expiry

end LeaseSystem

variable {record candidate : StoredRecord} {transition : RecordLeaseTransition} {now : Time}

theorem RecordLeaseTransition.apply_cases
    (applied : transition.apply record now = .ok (some candidate)) :
    record.leaseFence = transition.fence ∧ ¬transition.Refuses record now ∧
      (transition.operation.Guards ∧
          candidate = { record with storageRevision := record.storageRevision + 1 } ∨
        ¬transition.operation.Guards ∧ candidate = transition.leased record now) := by
  unfold apply at applied
  split at applied
  case isTrue => cases applied
  case isFalse fenced =>
    split at applied
    case isTrue => cases applied
    case isFalse allowed =>
      refine ⟨not_not.mp fenced, allowed, ?_⟩
      split at applied
      case isTrue guards =>
        cases applied
        exact .inl ⟨guards, rfl⟩
      case isFalse changes =>
        split at applied
        case isTrue => cases applied
        case isFalse =>
          cases applied
          exact .inr ⟨changes, rfl⟩

variable {expected : Int}

theorem StoredRecord.apply_of_transitionLease
    (changed : record.transitionLease expected transition now = .ok (some candidate)) :
    transition.apply record now = .ok (some candidate) := by
  rw [transitionLease, bind_eq_ok] at changed
  obtain ⟨_, _, changed⟩ := changed
  split at changed
  case isTrue => cases changed
  case isFalse => exact changed

section Transactions

open MemoryTransaction Action

/-- The transaction answers and writes what its record does. -/
theorem runOn_transitionRecordLease {tx : MemoryTransaction} {key : Digest}
    (found : tx.records.lookup key = some record) :
    runOn (transitionRecordLease key expected transition now) tx =
      (record.transitionLease expected transition now,
        match record.transitionLease expected transition now with
        | .ok (some candidate) => tx.setRecord key candidate
        | _ => tx) := by
  unfold transitionRecordLease StoredRecord.transitionLease requireRevision
  by_cases negative : expected < 0
  case pos =>
    rw [refuse_of negative]
    rfl
  case neg =>
    rw [refuse_of_not negative, runOn_ok_bind, runOn_bind_get, found, ok_bind]
    dsimp only
    by_cases stale : (record.storageRevision : Int) ≠ expected
    case pos =>
      rw [if_pos stale, if_pos stale]
      rfl
    case neg =>
      rw [if_neg stale, if_neg stale]
      cases applied : transition.apply record now with
      | error error => rfl
      | ok answer =>
        rw [runOn_ok_bind]
        cases answer with
        | none => rfl
        | some candidate =>
          rw [writeLease]
          dsimp only
          obtain ⟨_, _, ⟨guards, _⟩ | ⟨changes, rfl⟩⟩ := apply_cases applied
          · rw [if_pos guards]
            rfl
          · have fits : ¬(expected < 0 ∨ ((transition.leased record now).leaseFence : Int) < 0) :=
              not_or.mpr ⟨negative, Int.not_lt.mpr (Int.natCast_nonneg _)⟩
            rw [if_neg changes, updateRecordLease, refuse_of_not fits, runOn_bind, runOn_ok_bind,
              runOn_bind_get, found]
            dsimp only
            rw [if_neg stale]
            rfl

theorem runOn_replaceRecord {tx : MemoryTransaction}
    (found : tx.records.lookup candidate.keyDigest = some record)
    (next : candidate.storageRevision = record.storageRevision + 1)
    (same : validateRecordReplacement record candidate = .ok ⟨⟩) :
    runOn (replaceRecord candidate record.storageRevision) tx =
      (.ok true, tx.setRecord candidate.keyDigest candidate) := by
  have checked : [(⟨candidate, record.storageRevision⟩ : RecordReplacement)].forM
      tx.checkReplacement = .ok ⟨⟩ := by
    rw [List.forM_eq_forM, List.forM_cons, checkReplacement, found]
    dsimp only
    rw [refuse_of_not (not_not.mpr rfl), ok_bind, same]
    rfl
  have replaced : runOn (replaceRecords [⟨candidate, record.storageRevision⟩]) tx =
      (.ok ⟨⟩, tx.setRecord candidate.keyDigest candidate) := by
    rw [replaceRecords, refuse_of_not (by simp), runOn_ok_bind, refuse_of_not (by simp [next]), runOn_ok_bind, applyReplacements, runOn_bind_get,
      orderReplacements, List.insertionSort_cons, List.insertionSort_nil, List.orderedInsert_nil,
      checked]
    rfl
  rw [replaceRecord, runOn_tryCatch, runOn_bind_of_ok replaced]
  rfl

theorem runOn_replaceRecord_retire {tx : MemoryTransaction} {state : Option String}
    {data : JsonMapping} (found : tx.records.lookup record.keyDigest = some record)
    (retired : record.retire state data = .ok candidate) :
    runOn (replaceRecord candidate record.storageRevision) tx =
      (.ok true, tx.setRecord record.keyDigest candidate) := by
  unfold StoredRecord.retire at retired
  split at retired
  case h_1 =>
    cases retired
    exact runOn_replaceRecord found rfl (refuse_of_not (by simp))
  case h_2 => cases retired

end Transactions

theorem StoredRecord.retire_eq_ok {state : Option String}
    {data : JsonMapping} (retired : record.retire state data = .ok candidate) :
    candidate.leaseOwner = none ∧ candidate.leaseExpiresAt = none ∧
      candidate.leaseFence = record.leaseFence ∧
      candidate.storageRevision = record.storageRevision + 1 := by
  unfold retire at retired
  split at retired
  case h_1 =>
    cases retired
    exact ⟨rfl, rfl, rfl, rfl⟩
  case h_2 => cases retired

def LeaseRequest.Leaves (request : LeaseRequest) (record : StoredRecord) (now : Time)
    (candidate : StoredRecord) : Prop :=
  match request with
  | .change transition =>
    if transition.operation.Guards then
      candidate = { record with storageRevision := record.storageRevision + 1 }
    else candidate = transition.leased record now
  | .terminal .. => candidate.leaseOwner = none ∧ candidate.leaseExpiresAt = none ∧
      candidate.leaseFence = record.leaseFence

structure LeaseRequest.Succeeds (request : LeaseRequest) (record : StoredRecord) (now : Time)
    (candidate : StoredRecord) : Prop where
  fenced : record.leaseFence = request.proof.fence
  allowed : ¬request.proof.Refuses record now
  leaves : request.Leaves record now candidate

variable {request : LeaseRequest}

theorem LeaseRequest.succeeds_of_perform
    (performed : request.perform record expected now = .ok (some candidate)) :
    request.Succeeds record now candidate := by
  cases request with
  | change transition =>
    obtain ⟨fenced, allowed, changed⟩ :=
      apply_cases (StoredRecord.apply_of_transitionLease performed)
    refine ⟨fenced, allowed, ?_⟩
    rw [Leaves]
    split
    case isTrue guards =>
      cases changed with
      | inl guarded => exact guarded.2
      | inr leased => exact absurd guards leased.1
    case isFalse changes =>
      cases changed with
      | inl guarded => exact absurd guarded.1 changes
      | inr leased => exact leased.2
  | terminal guard guards =>
    rw [perform, bind_eq_ok] at performed
    obtain ⟨guarded, passed, retired⟩ := performed
    cases guarded with
    | none => cases retired
    | some guarded =>
      rw [StoredRecord.retireGuarded, map_eq_ok] at retired
      obtain ⟨found, retired, same⟩ := retired
      cases same
      obtain ⟨fenced, allowed, changed⟩ :=
        apply_cases (StoredRecord.apply_of_transitionLease passed)
      obtain ⟨noOwner, noExpiry, sameFence, _⟩ := StoredRecord.retire_eq_ok retired
      refine ⟨fenced, allowed, noOwner, noExpiry, ?_⟩
      cases changed with
      | inl kept => rw [sameFence, kept.2]
      | inr leased => exact absurd guards leased.1

theorem LeaseRequest.Succeeds.live (succeeds : request.Succeeds record now candidate)
    (holds : ¬request.proof.operation.NeedsAvailable) :
    record.Live now ∧ record.leaseOwner = request.proof.owner := by
  have allowed := succeeds.allowed
  rw [RecordLeaseTransition.Refuses, if_neg holds, not_or, not_or, not_not, not_not] at allowed
  exact ⟨allowed.1, allowed.2.1⟩

theorem LeaseRequest.Succeeds.available (succeeds : request.Succeeds record now candidate)
    (needs : request.proof.operation.NeedsAvailable) : ¬record.Live now := by
  have allowed := succeeds.allowed
  rw [RecordLeaseTransition.Refuses, if_pos needs, not_or] at allowed
  exact allowed.1

theorem RecordLeaseTransition.duration_of_release
    (release : transition.operation = .release) : transition.duration = none := by
  have checked := transition.checked
  rw [checkLeaseTransition, bind_eq_ok] at checked
  obtain ⟨_, _, limited⟩ := checked
  rw [if_pos (.inl release)] at limited
  exact not_not.mp (refuse_eq_ok.mp limited)

def LeaseCall.Succeeds (call : LeaseCall) : Prop :=
  ∃ candidate, call.answer = .ok (some candidate)

def LeaseCall.Acquires (call : LeaseCall) : Prop :=
  call.Succeeds ∧ ∃ transition, call.request = .change transition ∧ transition.operation = .acquire

def LeaseCall.OnlyGuards (call : LeaseCall) : Prop :=
  ∃ transition, call.request = .change transition ∧ transition.operation.Guards

namespace LeaseSystem

variable {before next : LeaseSystem} {call : LeaseCall}

section

variable (step : machine.step before call next)
include step

theorem step_cases : (next.record = before.record ∧ next.held = before.held ∧ ¬call.Succeeds) ∨
    ∃ candidate, call.request.Succeeds before.record call.now candidate ∧
      next.record = candidate ∧ next.held = remember before.held call.request candidate ∧
      call.Succeeds := by
  obtain ⟨_, answered, rfl⟩ := step
  unfold after
  split
  case h_1 candidate same =>
    exact .inr ⟨candidate, LeaseRequest.succeeds_of_perform (answered.symm.trans same), rfl, rfl,
      candidate, same⟩
  case h_2 fails => exact .inl ⟨rfl, rfl, fun ⟨candidate, same⟩ => fails candidate same⟩

theorem clock_step : before.clock ≤ call.now ∧ next.clock = call.now := by
  obtain ⟨later, _, rfl⟩ := step
  refine ⟨later, ?_⟩
  unfold after
  split <;> rfl

theorem leaseFence_step : (call.Acquires → next.record.leaseFence = before.record.leaseFence + 1) ∧
      (¬call.Acquires → next.record.leaseFence = before.record.leaseFence) := by
  rcases step_cases step with ⟨kept, _, fails⟩ | ⟨candidate, succeeds, changed, _, answered⟩
  · exact ⟨fun acquires => absurd acquires.1 fails, fun _ => by rw [kept]⟩
  · rw [changed]
    have leaves := succeeds.leaves
    have fenced := succeeds.fenced
    cases requested : call.request with
    | change transition =>
      rw [requested] at leaves fenced
      rw [LeaseRequest.Leaves] at leaves
      by_cases acquire : transition.operation = .acquire
      case pos =>
        have changes : ¬transition.operation.Guards := by
          rw [acquire]
          decide
        rw [if_neg changes] at leaves
        refine ⟨fun _ => ?_, fun other => absurd ⟨answered, transition, requested, acquire⟩ other⟩
        rw [leaves, leased, if_pos acquire, fenced]
        rfl
      case neg =>
        constructor
        · rintro ⟨_, found, same, acquires⟩
          cases requested.symm.trans same
          exact absurd acquires acquire
        · intro _
          split at leaves
          case isTrue => rw [leaves]
          case isFalse =>
            rw [leaves, leased, if_neg acquire, fenced]
            rfl
    | terminal =>
      rw [requested] at leaves
      refine ⟨?_, fun _ => leaves.2.2⟩
      rintro ⟨_, found, same, _⟩
      cases requested.symm.trans same

end

theorem leaseFence_le_of_run (reachable : machine.Reachable first)
    (run : machine.Run first calls last) : first.record.leaseFence ≤ last.record.leaseFence := by
  apply run.relates ?_ ?_ ?_ reachable
  · exact fun _ => le_refl _
  · exact fun _ _ _ => le_trans
  · intro before call next _ step
    obtain ⟨grows, stays⟩ := leaseFence_step step
    by_cases acquires : call.Acquires
    case pos =>
      rw [grows acquires]
      exact Nat.le_succ _
    case neg => exact le_of_eq (stays acquires).symm

theorem fenced_of_succeeds (step : machine.step before call next) (succeeds : call.Succeeds) :
    call.request.proof.fence = before.record.leaseFence := by
  rcases step_cases step with ⟨_, _, fails⟩ | ⟨candidate, changes, _⟩
  · exact absurd succeeds fails
  · exact changes.fenced.symm

/-- Whatever an owner remembers as unexpired is the lease of the record. -/
def Honest (system : LeaseSystem) : Prop :=
  ∀ owner fence expiry, system.held owner = some (fence, expiry) → system.clock < expiry →
    system.record.leaseOwner = some owner ∧ system.record.lease? = some (fence, expiry)

variable {owner : String} {fence : Nat}

theorem live_of_lease (owned : record.leaseOwner = some owner)
    (leased : record.lease? = some (fence, expiry)) (unexpired : now < expiry) :
    record.Live now := by
  refine ⟨by rw [owned]; exact Option.some_ne_none owner, ?_⟩
  rw [StoredRecord.lease?, Option.map_eq_some_iff] at leased
  obtain ⟨found, expires, same⟩ := leased
  cases same
  rw [expires]
  exact decide_eq_true unexpired

variable {held : String → Option (Nat × Time)}

theorem remember_of_informs (informs : request.Informs) : remember held request candidate owner =
      if request.proof.owner = some owner then candidate.lease? else held owner := by
  unfold remember
  cases request.proof.owner with
  | none => rfl
  | some informed =>
    dsimp only
    rw [if_pos informs]
    by_cases same : informed = owner
    case pos =>
      subst same
      rw [Function.update_self, if_pos rfl]
    case neg =>
      rw [Function.update_of_ne (fun equal => same equal.symm), if_neg]
      exact fun equal => same (Option.some.inj equal)

theorem remember_of_not_informs (silent : ¬request.Informs) :
    remember held request candidate = held := by
  unfold remember
  cases request.proof.owner with
  | none => rfl
  | some informed => exact if_neg silent

theorem not_succeeds_of_other (honest : before.Honest) (later : before.clock ≤ call.now)
    (succeeds : call.request.Succeeds before.record call.now candidate)
    (other : call.request.proof.owner ≠ some owner ∨ call.request.proof.operation.NeedsAvailable)
    (remembered : before.held owner = some (fence, expiry)) : expiry ≤ call.now := by
  by_contra unexpired
  rw [not_le] at unexpired
  obtain ⟨owned, leased⟩ := honest owner fence expiry remembered (lt_of_le_of_lt later unexpired)
  have live := live_of_lease owned leased unexpired
  by_cases needs : call.request.proof.operation.NeedsAvailable
  case pos => exact succeeds.available needs live
  case neg =>
    have same := (succeeds.live needs).2
    cases other with
    | inl different => exact different (same.symm.trans owned)
    | inr available => exact needs available

theorem honest_step (honest : before.Honest) (step : machine.step before call next) :
    next.Honest := by
  intro owner fence expiry remembered unexpired
  obtain ⟨later, now⟩ := clock_step step
  rw [now] at unexpired
  rcases step_cases step with ⟨kept, sameHeld, _⟩ | ⟨candidate, succeeds, changed, memory, _⟩
  · rw [sameHeld] at remembered
    rw [kept]
    exact honest owner fence expiry remembered (lt_of_le_of_lt later unexpired)
  · rw [memory] at remembered
    rw [changed]
    have leaves := succeeds.leaves
    have others : call.request.proof.owner ≠ some owner ∨
        call.request.proof.operation.NeedsAvailable →
        before.held owner = some (fence, expiry) → expiry ≤ call.now :=
      not_succeeds_of_other honest later succeeds
    by_cases informs : call.request.Informs
    case pos =>
      rw [remember_of_informs informs] at remembered
      split at remembered
      case isFalse different =>
        exact absurd (others (.inl different) remembered) (not_le.mpr unexpired)
      case isTrue own =>
        refine ⟨?_, remembered⟩
        cases requested : call.request with
        | change transition =>
          rw [requested] at leaves own informs
          rw [LeaseRequest.Leaves, if_neg informs] at leaves
          rw [leaves] at remembered ⊢
          have continues : transition.operation ≠ .release := by
            intro release
            have endless : (transition.leased before.record call.now).lease? = none := by
              rw [StoredRecord.lease?, leased, duration_of_release release]
              rfl
            cases endless.symm.trans remembered
          rw [leased, if_neg continues]
          exact own
        | terminal =>
          rw [requested] at leaves
          rw [StoredRecord.lease?, leaves.2.1] at remembered
          cases remembered
    case neg =>
      rw [remember_of_not_informs informs] at remembered
      cases requested : call.request with
      | change transition =>
        rw [requested] at leaves informs
        have guards : transition.operation.Guards := not_not.mp informs
        rw [LeaseRequest.Leaves, if_pos guards] at leaves
        rw [leaves]
        exact honest owner fence expiry remembered (lt_of_le_of_lt later unexpired)
      | terminal guard guards =>
        have needs : call.request.proof.operation.NeedsAvailable := by
          rw [requested] at informs ⊢
          exact .inr (guards.resolve_left informs)
        exact absurd (others (.inr needs) remembered) (not_le.mpr unexpired)

variable {system : LeaseSystem}

theorem honest_of_reachable (reachable : machine.Reachable system) : system.Honest := by
  apply reachable.invariant
  · intro system initial owner fence expiry remembered _
    rw [initial owner] at remembered
    split at remembered
    case isTrue owned => exact ⟨owned, remembered⟩
    case isFalse => cases remembered
  · exact fun before call next _ honest step => honest_step honest step

theorem owner_of_believes (reachable : machine.Reachable system) (later : system.clock ≤ instant)
    (believes : system.Believes owner instant) : system.record.leaseOwner = some owner := by
  obtain ⟨fence, expiry, remembered, unexpired⟩ := believes
  exact (honest_of_reachable reachable owner fence expiry remembered
    (lt_of_le_of_lt later unexpired)).1

end LeaseSystem

/-- Over every run of lease changes: the fence grows by one with each acquisition and with
nothing else; at most one owner believes it holds an unexpired lease; after an acquisition no
request under an earlier fence succeeds; and a guard leaves the lease as it is. -/
theorem record_leases_are_fenced : (∀ before call next, LeaseSystem.machine.step before call next →
      (call.Acquires → next.record.leaseFence = before.record.leaseFence + 1) ∧
      (¬call.Acquires → next.record.leaseFence = before.record.leaseFence)) ∧
    (∀ system, LeaseSystem.machine.Reachable system → ∀ instant, system.clock ≤ instant →
      ∀ first second, system.Believes first instant → system.Believes second instant →
        first = second) ∧ (∀ before acquired next, LeaseSystem.machine.Reachable before →
      LeaseSystem.machine.step before acquired next → acquired.Acquires →
      ∀ calls last, LeaseSystem.machine.Run next calls last →
      ∀ late after, LeaseSystem.machine.step last late after →
        late.request.proof.fence ≤ before.record.leaseFence → ¬late.Succeeds) ∧
    ∀ before call next, LeaseSystem.machine.step before call next → call.OnlyGuards →
      next.record.leaseOwner = before.record.leaseOwner ∧
        next.record.leaseFence = before.record.leaseFence ∧
        next.record.leaseExpiresAt = before.record.leaseExpiresAt := by
  refine ⟨fun _ _ _ step => LeaseSystem.leaseFence_step step, ?_, ?_, ?_⟩
  · intro system reachable instant later first second one other
    have owned := LeaseSystem.owner_of_believes reachable later one
    exact Option.some.inj (owned.symm.trans (LeaseSystem.owner_of_believes reachable later other))
  · intro before acquired next reachable step acquires calls last run late after lateStep stale
      succeeds
    have grown := (LeaseSystem.leaseFence_step step).1 acquires
    have kept := LeaseSystem.leaseFence_le_of_run (reachable.step step) run
    have fenced := LeaseSystem.fenced_of_succeeds lateStep succeeds
    omega
  · rintro before call next step ⟨transition, requested, guards⟩
    rcases LeaseSystem.step_cases step with ⟨kept, _⟩ | ⟨candidate, succeeds, changed, _⟩
    · rw [kept]
      exact ⟨rfl, rfl, rfl⟩
    · have leaves := succeeds.leaves
      rw [requested, LeaseRequest.Leaves, if_pos guards] at leaves
      rw [changed, leaves]
      exact ⟨rfl, rfl, rfl⟩

def LeaseSystem.called (system : LeaseSystem) (request : LeaseRequest) (now : Time) : LeaseCall :=
  ⟨system.record.storageRevision, request, now,
    request.perform system.record system.record.storageRevision now⟩

/-- A lease of ten microseconds. -/
def sampleRequest (operation : LeaseOperation) (owner : String) (fence : Nat)
    (checked : checkLeaseTransition operation (some owner) (some 10) = .ok ()) : LeaseRequest :=
  .change ⟨operation, some owner, fence, some 10, checked⟩

def sampleFree : LeaseSystem := ⟨sampleRecord 0, 0, fun _ => none⟩

def sampleFirst : LeaseCall := sampleFree.called (sampleRequest .acquire "a" 0 rfl) 0

def sampleLeased : LeaseSystem := sampleFree.after sampleFirst

def sampleSecond : LeaseCall := sampleLeased.called (sampleRequest .acquire "b" 1 rfl) 20

def sampleLate : LeaseCall :=
  (sampleLeased.after sampleSecond).called (sampleRequest .renew "a" 1 rfl) 21

theorem sample_late_renewal_fails : sampleSecond.Acquires ∧ ¬sampleLate.Succeeds := by
  have free : LeaseSystem.machine.Reachable sampleFree := .of_initial fun _ => rfl
  have first : LeaseSystem.machine.step sampleFree sampleFirst sampleLeased :=
    ⟨le_refl 0, rfl, rfl⟩
  have acquires : sampleSecond.Acquires := ⟨⟨_, rfl⟩, _, rfl, rfl⟩
  exact ⟨acquires, record_leases_are_fenced.2.2.1 sampleLeased sampleSecond _ (free.step first)
    ⟨by decide, rfl, rfl⟩ acquires [] _ (.nil _) sampleLate _ ⟨by decide, rfl, rfl⟩ (le_refl 1)⟩

end Linktools.State
