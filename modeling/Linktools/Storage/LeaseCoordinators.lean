import Linktools.Library.Machine
import Mathlib.Data.List.Basic

namespace Linktools.Storage

/-! The lease and fence files of one key, and the sections that an inter-process lock
serialises. -/

structure Lease where
  fence : Nat
  token : String
deriving DecidableEq

structure LeaseRecord where
  fence : Nat
  token : String
  expiresAt : Int

def LeaseRecord.lease (record : LeaseRecord) : Lease :=
  ⟨record.fence, record.token⟩

structure LeaseFiles where
  lease : Option LeaseRecord := none
  fence : Option Nat := none

namespace LeaseFiles

def readFence (files : LeaseFiles) : Nat :=
  files.fence.getD 0

end LeaseFiles

/-- Where a deadline, a lock or the file system may end an attempt early. -/
inductive Interruption
  | beforeGuard
  | fenceLock
  | fenceWrite
  | afterFence
  | recordWrite
deriving DecidableEq

/-- The clock as an attempt reads it, first and when it writes the record, and its token. -/
structure Attempt where
  now : Int
  written : Int
  token : String
  interruption : Option Interruption := none

def tryAcquire (leaseSeconds : Int) (attempt : Attempt) (files : LeaseFiles) :
    Except Interruption (Option Lease) × LeaseFiles :=
  if attempt.interruption = some .beforeGuard then (.ok none, files)
  else if ∃ current ∈ files.lease, attempt.now < current.expiresAt then (.ok none, files)
  else
    let fence := files.readFence + 1
    match attempt.interruption with
    | some .fenceLock => (.ok none, { files with lease := none })
    | some .fenceWrite => (.error .fenceWrite, { files with lease := none })
    | some .afterFence => (.ok none, ⟨none, some fence⟩)
    | some .recordWrite => (.error .recordWrite, ⟨none, some fence⟩)
    | _ =>
      (.ok (some ⟨fence, attempt.token⟩),
        ⟨some ⟨fence, attempt.token, attempt.written + leaseSeconds⟩, some fence⟩)

/-- The ways in which an attempt ends, and when each of them is possible. -/
inductive AttemptEnds (leaseSeconds : Int) (attempt : Attempt) (files : LeaseFiles) :
    Except Interruption (Option Lease) → LeaseFiles → Prop
  | untouched : AttemptEnds leaseSeconds attempt files (.ok none) files
  | cleared {outcome : Except Interruption (Option Lease)} {fence : Option Nat}
      (unheld : ¬∃ current ∈ files.lease, attempt.now < current.expiresAt)
      (none : ∀ lease, outcome ≠ .ok (some lease)) (counted : files.readFence ≤ fence.getD 0) :
      AttemptEnds leaseSeconds attempt files outcome ⟨.none, fence⟩
  | taken (unheld : ¬∃ current ∈ files.lease, attempt.now < current.expiresAt) :
      AttemptEnds leaseSeconds attempt files
        (.ok (some ⟨files.readFence + 1, attempt.token⟩))
        ⟨some ⟨files.readFence + 1, attempt.token, attempt.written + leaseSeconds⟩,
          some (files.readFence + 1)⟩

theorem tryAcquire_ends (leaseSeconds : Int) (attempt : Attempt) (files : LeaseFiles) :
    AttemptEnds leaseSeconds attempt files (tryAcquire leaseSeconds attempt files).1
      (tryAcquire leaseSeconds attempt files).2 := by
  rw [tryAcquire]
  by_cases early : attempt.interruption = some .beforeGuard
  case pos =>
    rw [if_pos early]
    exact .untouched
  case neg =>
    rw [if_neg early]
    by_cases held : ∃ current ∈ files.lease, attempt.now < current.expiresAt
    case pos =>
      rw [if_pos held]
      exact .untouched
    case neg =>
      rw [if_neg held]
      dsimp only
      cases interrupted : attempt.interruption with
      | none => exact .taken held
      | some interruption =>
        cases interruption with
        | beforeGuard => exact absurd interrupted early
        | fenceLock => exact .cleared held nofun (Nat.le_refl _)
        | fenceWrite => exact .cleared held nofun (Nat.le_refl _)
        | afterFence => exact .cleared held nofun (Nat.le_succ _)
        | recordWrite => exact .cleared held nofun (Nat.le_succ _)

def renewRecord (leaseSeconds now : Int) (lease : Lease) (files : LeaseFiles) : Bool × LeaseFiles :=
  match files.lease with
  | none => (false, files)
  | some record =>
    if record.lease = lease then
      (true, { files with lease := some { record with expiresAt := now + leaseSeconds } })
    else (false, files)

def releaseRecord (lease : Lease) (files : LeaseFiles) : LeaseFiles :=
  match files.lease with
  | none => files
  | some record => if record.lease = lease then { files with lease := none } else files

structure LeaseHistory where
  clock : Int
  files : LeaseFiles
  issued : List Lease := []
  promised : List (Lease × Int) := []

namespace LeaseHistory

variable (leaseSeconds : Int) (history : LeaseHistory)

def attempt (attempt : Attempt) : Except Interruption (Option Lease) × LeaseHistory :=
  let (outcome, files) := tryAcquire leaseSeconds attempt history.files
  (outcome,
    match outcome with
    | .ok (some lease) =>
      ⟨attempt.written, files, lease :: history.issued,
        (lease, attempt.written + leaseSeconds) :: history.promised⟩
    | _ => { history with clock := attempt.written, files })

def renew (now : Int) (lease : Lease) : Bool × LeaseHistory :=
  let (kept, files) := renewRecord leaseSeconds now lease history.files
  (kept,
    { history with
      clock := now
      files
      promised :=
        if kept then
          history.promised.map fun promise =>
            if promise.1 = lease then (lease, now + leaseSeconds) else promise
        else history.promised })

def release (lease : Lease) : LeaseHistory :=
  { history with
    files := releaseRecord lease history.files
    promised :=
      if history.files.lease.map LeaseRecord.lease = some lease then
        history.promised.filter fun promise => promise.1 ≠ lease
      else history.promised }

structure Fenced (history : LeaseHistory) : Prop where
  ordered : history.issued.Pairwise fun later earlier => earlier.fence < later.fence
  counted : ∀ lease ∈ history.issued, lease.fence ≤ history.files.readFence
  newest : ∀ record, history.files.lease = some record → record.lease ∈ history.issued ∧
    ∀ lease ∈ history.issued, lease.fence ≤ record.fence
  known : ∀ promise ∈ history.promised, promise.1 ∈ history.issued
  current : ∀ promise ∈ history.promised, history.clock < promise.2 →
    ∃ record, history.files.lease = some record ∧ record.lease = promise.1 ∧
      record.expiresAt = promise.2

variable {leaseSeconds : Int} {history : LeaseHistory} {lease : Lease} {clock now : Int}

theorem fenced_start : Fenced ⟨clock, {}, [], []⟩ where
  ordered := .nil
  counted := nofun
  newest := nofun
  known := nofun
  current := nofun

section

variable (fenced : history.Fenced)
include fenced

theorem Fenced.later (later : history.clock ≤ clock) :
    ({ history with clock } : LeaseHistory).Fenced :=
  { fenced with
    current := fun promise member unexpired =>
      fenced.current promise member (Int.lt_of_le_of_lt later unexpired) }

theorem Fenced.cleared {fence : Option Nat} (counted : history.files.readFence ≤ fence.getD 0)
    (expired : ∀ promise ∈ history.promised, promise.2 ≤ clock) :
    ({ history with clock, files := ⟨none, fence⟩ } : LeaseHistory).Fenced where
  ordered := fenced.ordered
  counted lease member := Nat.le_trans (fenced.counted lease member) counted
  newest := nofun
  known := fenced.known
  current promise member unexpired := by
    have past := expired promise member
    dsimp only at unexpired
    omega

theorem Fenced.expired (later : history.clock ≤ now)
    (written : now ≤ clock) (unheld : ¬∃ current ∈ history.files.lease, now < current.expiresAt) :
    ∀ promise ∈ history.promised, promise.2 ≤ clock := by
  intro promise member
  by_contra unexpired
  obtain ⟨record, found, _, expires⟩ := fenced.current promise member (by omega)
  exact unheld ⟨record, found, by omega⟩

theorem Fenced.taken (expired : ∀ promise ∈ history.promised, promise.2 ≤ clock) :
    (⟨clock, ⟨some ⟨history.files.readFence + 1, token, expiresAt⟩,
        some (history.files.readFence + 1)⟩, ⟨history.files.readFence + 1, token⟩ :: history.issued,
      (⟨history.files.readFence + 1, token⟩, expiresAt) :: history.promised⟩ :
        LeaseHistory).Fenced where
  ordered := .cons (fun earlier member => Nat.lt_succ_of_le (fenced.counted earlier member))
    fenced.ordered
  counted lease member := by
    cases List.mem_cons.mp member with
    | inl own => exact Nat.le_of_eq (congrArg Lease.fence own)
    | inr earlier => exact Nat.le_succ_of_le (fenced.counted lease earlier)
  newest record found := by
    cases found
    refine ⟨List.mem_cons_self, fun lease member => ?_⟩
    cases List.mem_cons.mp member with
    | inl own => exact Nat.le_of_eq (congrArg Lease.fence own)
    | inr earlier => exact Nat.le_succ_of_le (fenced.counted lease earlier)
  known promise member := by
    cases List.mem_cons.mp member with
    | inl own =>
      rw [own]
      exact List.mem_cons_self
    | inr earlier => exact List.mem_cons_of_mem _ (fenced.known promise earlier)
  current promise member unexpired := by
    cases List.mem_cons.mp member with
    | inl own =>
      rw [own]
      exact ⟨_, rfl, rfl, rfl⟩
    | inr earlier =>
      have past := expired promise earlier
      dsimp only at unexpired
      omega

theorem Fenced.attempt {attempt : Attempt}
    (later : history.clock ≤ attempt.now) (written : attempt.now ≤ attempt.written) :
    (history.attempt leaseSeconds attempt).2.Fenced ∧
      ∀ lease, (history.attempt leaseSeconds attempt).1 = .ok (some lease) →
        ∀ earlier ∈ history.issued, earlier.fence < lease.fence := by
  have ends := tryAcquire_ends leaseSeconds attempt history.files
  rw [LeaseHistory.attempt]
  generalize tryAcquire leaseSeconds attempt history.files = ending at ends
  obtain ⟨outcome, files⟩ := ending
  dsimp only at ends ⊢
  cases ends with
  | untouched => exact ⟨fenced.later (Int.le_trans later written), nofun⟩
  | cleared unheld none counted =>
    have cleared := fenced.cleared counted (fenced.expired later written unheld)
    cases outcome with
    | error interruption => exact ⟨cleared, nofun⟩
    | ok answer =>
      cases answer with
      | none => exact ⟨cleared, nofun⟩
      | some lease => exact absurd rfl (none lease)
  | taken unheld =>
    refine ⟨fenced.taken (fenced.expired later written unheld), ?_⟩
    intro lease same
    cases same
    exact fun earlier member => Nat.lt_succ_of_le (fenced.counted earlier member)

end

theorem issued_of_taken {attempt : Attempt}
    (outcome : (history.attempt leaseSeconds attempt).1 = .ok (some lease)) :
    (history.attempt leaseSeconds attempt).2.issued = lease :: history.issued := by
  rw [LeaseHistory.attempt] at outcome ⊢
  generalize tryAcquire leaseSeconds attempt history.files = ending at outcome ⊢
  obtain ⟨answer, files⟩ := ending
  dsimp only at outcome
  subst outcome
  rfl

theorem issued_of_untaken {attempt : Attempt}
    (none : ∀ lease, (history.attempt leaseSeconds attempt).1 ≠ .ok (some lease)) :
    (history.attempt leaseSeconds attempt).2.issued = history.issued := by
  rw [LeaseHistory.attempt] at none ⊢
  generalize tryAcquire leaseSeconds attempt history.files = ending at none ⊢
  obtain ⟨answer, files⟩ := ending
  dsimp only at none ⊢
  split
  case h_1 lease => exact absurd rfl (none lease)
  case h_2 => rfl

section

variable (fenced : history.Fenced)
include fenced

theorem Fenced.outdated {later : Lease}
    (issued : later ∈ history.issued) (outdated : lease.fence < later.fence) :
    ∀ record, history.files.lease = some record → record.lease ≠ lease := by
  intro record found same
  have newest := (fenced.newest record found).2 later issued
  rw [← same] at outdated
  exact absurd (Nat.lt_of_lt_of_le outdated newest) (Nat.lt_irrefl _)

theorem Fenced.renew (later : history.clock ≤ now) :
    (history.renew leaseSeconds now lease).2.Fenced := by
  rw [LeaseHistory.renew, renewRecord]
  cases found : history.files.lease with
  | none => exact fenced.later later
  | some record =>
    dsimp only
    by_cases own : record.lease = lease
    case neg =>
      rw [if_neg own]
      exact fenced.later later
    case pos =>
      rw [if_pos own]
      dsimp only
      rw [if_pos rfl]
      have firsts : (history.promised.map fun promise =>
          if promise.1 = lease then (lease, now + leaseSeconds) else promise).map Prod.fst =
            history.promised.map Prod.fst := by
        rw [List.map_map]
        apply List.map_congr_left
        intro promise _
        dsimp only [Function.comp_apply]
        split
        case isTrue same => exact same.symm
        case isFalse => rfl
      refine ⟨fenced.ordered, fenced.counted, ?_, ?_, ?_⟩
      · intro renewed same
        cases same
        exact fenced.newest record found
      · intro promise member
        have first := List.mem_map_of_mem (f := Prod.fst) member
        rw [firsts] at first
        obtain ⟨earlier, earlierMember, same⟩ := List.mem_map.mp first
        rw [← same]
        exact fenced.known earlier earlierMember
      · intro promise member unexpired
        obtain ⟨earlier, earlierMember, rfl⟩ := List.mem_map.mp member
        by_cases same : earlier.1 = lease
        case pos =>
          rw [if_pos same]
          exact ⟨_, rfl, own, rfl⟩
        case neg =>
          rw [if_neg same] at unexpired ⊢
          obtain ⟨other, otherFound, carries, expires⟩ :=
            fenced.current earlier earlierMember (Int.lt_of_le_of_lt later unexpired)
          rw [found, Option.some.injEq] at otherFound
          subst otherFound
          exact absurd (carries.symm.trans own) same

theorem Fenced.release : (history.release lease).Fenced := by
  rw [LeaseHistory.release, releaseRecord]
  cases found : history.files.lease with
  | none =>
    rw [if_neg nofun]
    exact fenced
  | some record =>
    dsimp only
    rw [Option.map_some]
    by_cases own : record.lease = lease
    case neg =>
      rw [if_neg own, if_neg fun same => own (Option.some.inj same)]
      exact fenced
    case pos =>
      rw [if_pos own, if_pos (congrArg some own)]
      refine ⟨fenced.ordered, fenced.counted, nofun, ?_, ?_⟩
      · intro promise member
        exact fenced.known promise (List.mem_of_mem_filter member)
      · intro promise member unexpired
        obtain ⟨earlier, other⟩ := List.mem_filter.mp member
        obtain ⟨same, sameFound, carries, _⟩ := fenced.current promise earlier unexpired
        rw [found, Option.some.injEq] at sameFound
        subst sameFound
        exact absurd (carries.symm.trans own) (of_decide_eq_true other)

theorem Fenced.exclusive (leftPromised : left ∈ history.promised)
    (rightPromised : right ∈ history.promised) (leftUnexpired : history.clock < left.2)
    (rightUnexpired : history.clock < right.2) : left = right := by
  obtain ⟨record, found, leftCarries, leftExpires⟩ := fenced.current left leftPromised leftUnexpired
  obtain ⟨same, sameFound, rightCarries, rightExpires⟩ :=
    fenced.current right rightPromised rightUnexpired
  rw [found, Option.some.injEq] at sameFound
  subst sameFound
  exact Prod.ext (leftCarries.symm.trans rightCarries) (leftExpires.symm.trans rightExpires)

end

variable {files : LeaseFiles}

section

variable (other : ∀ record, files.lease = some record → record.lease ≠ lease)
include other

theorem renewRecord_of_other :
    renewRecord leaseSeconds now lease files = (false, files) := by
  rw [renewRecord]
  cases found : files.lease with
  | none => rfl
  | some record => exact if_neg (other record found)

theorem releaseRecord_of_other :
    releaseRecord lease files = files := by
  rw [releaseRecord]
  cases found : files.lease with
  | none => rfl
  | some record => exact if_neg (other record found)

end

end LeaseHistory

open Library

/-! Coordinators over the files of one key. A file section runs in a thread of its own, which
may act long after its caller has gone. -/

/-- What one coordinator remembers of the key: the task that holds its lock, and the active
lease with the task that acquired it. -/
structure LeaseCoordinator where
  lockedBy : Option Nat := none
  active : Option Lease := none
  lockOwner : Option Nat := none

namespace LeaseCoordinator

def unlock (coordinator : LeaseCoordinator) (owner : Nat) : LeaseCoordinator :=
  if coordinator.lockedBy = some owner then { coordinator with lockedBy := none }
  else coordinator

/-- Forget a lease that could not be renewed.  Another task's lock raises instead. -/
def forget (coordinator : LeaseCoordinator) (lease : Lease) : LeaseCoordinator :=
  if coordinator.active = some lease then
    match coordinator.lockOwner with
    | none => coordinator
    | some owner =>
      if coordinator.lockedBy = none ∨ coordinator.lockedBy = some owner then {}
      else coordinator
  else coordinator

end LeaseCoordinator

inductive LeaseCall
  | attempting (owner : Nat) (abandoned : Bool)
  | attempted (owner : Nat) (abandoned : Bool) (outcome : Except Interruption (Option Lease))
  | undoing (owner : Nat) (lease : Lease)
  | unlocking (owner : Nat)
  | renewing (lease : Lease)
  | renewed (lease : Lease) (kept : Bool)
  | releasing (owner : Nat) (lease : Lease)

def LeaseCall.carried : LeaseCall → Option Lease
  | .attempted _ _ (.ok outcome) => outcome
  | _ => none

structure LeaseSystem where
  history : LeaseHistory
  coordinators : Nat → LeaseCoordinator
  calls : List (Nat × LeaseCall)

namespace LeaseSystem

variable (system : LeaseSystem)

def setCoordinator (index : Nat) (coordinator : LeaseCoordinator) : LeaseSystem :=
  { system with coordinators := Function.update system.coordinators index coordinator }

def setCalls (calls : List (Nat × LeaseCall)) : LeaseSystem :=
  { system with calls }

def setHistory (history : LeaseHistory) : LeaseSystem :=
  { system with history }

end LeaseSystem

inductive LeaseEvent
  | acquire (index task : Nat)
  | abandon (index : Nat)
  | attempt (index : Nat) (attempt : Attempt)
  | retry (index : Nat)
  | giveUp (index : Nat)
  | acquired (index : Nat) (lease : Lease)
  | undo (index : Nat)
  | undone (index : Nat) (lease : Lease)
  | unlock (index : Nat)
  | renew (index : Nat) (lease : Lease)
  | renewed (index : Nat) (lease : Lease) (now : Int)
  | settle (index : Nat) (lease : Lease)
  | release (index : Nat) (lease : Lease)
  | released (index : Nat) (lease : Lease)
  | failed (index : Nat)

section

variable (leaseSeconds : Int) (system : LeaseSystem)

/-- One step of a call, with the other calls before and after it in the list. -/
inductive LeaseStep : LeaseEvent → LeaseSystem → Prop
  | acquire {index task : Nat} (free : (system.coordinators index).lockedBy = none) :
      LeaseStep (.acquire index task)
        ((system.setCoordinator index
          { system.coordinators index with lockedBy := some task }).setCalls
            ((index, .attempting task false) :: system.calls))
  | abandonAttempt (calls : system.calls = before ++ (index, .attempting owner false) :: after) :
      LeaseStep (.abandon index)
        (system.setCalls (before ++ (index, .attempting owner true) :: after))
  | abandonOutcome
      (calls : system.calls = before ++ (index, .attempted owner false outcome) :: after) :
      LeaseStep (.abandon index)
        (system.setCalls (before ++ (index, .attempted owner true outcome) :: after))
  | attempt {index owner : Nat} {abandoned : Bool} {before after : List (Nat × LeaseCall)}
      {attempt : Attempt}
      (calls : system.calls = before ++ (index, .attempting owner abandoned) :: after)
      (later : system.history.clock ≤ attempt.now) (written : attempt.now ≤ attempt.written) :
      LeaseStep (.attempt index attempt)
        ((system.setHistory (system.history.attempt leaseSeconds attempt).2).setCalls
          (before ++ (index, .attempted owner abandoned
            (system.history.attempt leaseSeconds attempt).1) :: after))
  | retry (calls : system.calls = before ++ (index, .attempted owner false (.ok none)) :: after) :
      LeaseStep (.retry index)
        (system.setCalls (before ++ (index, .attempting owner false) :: after))
  | giveUp (calls : system.calls = before ++ (index, .attempted owner abandoned outcome) :: after)
      (none : ∀ lease, outcome ≠ .ok (some lease)) : LeaseStep (.giveUp index)
        ((system.setCoordinator index ((system.coordinators index).unlock owner)).setCalls
          (before ++ after))
  | acquired {index owner : Nat} {before after : List (Nat × LeaseCall)} {lease : Lease}
      (calls : system.calls =
        before ++ (index, .attempted owner false (.ok (some lease))) :: after) :
      LeaseStep (.acquired index lease)
        ((system.setCoordinator index { system.coordinators index with
          active := some lease
          lockOwner := some owner }).setCalls (before ++ after))
  | undo (calls : system.calls =
        before ++ (index, .attempted owner true (.ok (some lease))) :: after) :
      LeaseStep (.undo index)
        (system.setCalls (before ++ (index, .undoing owner lease) :: after))
  | undone (calls : system.calls = before ++ (index, .undoing owner lease) :: after) :
      LeaseStep (.undone index lease)
        ((system.setHistory (system.history.release lease)).setCalls
          (before ++ (index, .unlocking owner) :: after))
  | undoFailed (calls : system.calls = before ++ (index, .undoing owner lease) :: after) :
      LeaseStep (.failed index)
        (system.setCalls (before ++ (index, .unlocking owner) :: after))
  | unlock (calls : system.calls = before ++ (index, .unlocking owner) :: after) :
      LeaseStep (.unlock index)
        ((system.setCoordinator index ((system.coordinators index).unlock owner)).setCalls
          (before ++ after))
  | renewInactive (inactive : (system.coordinators index).active ≠ some lease) :
      LeaseStep (.renew index lease) system
  | renew {index : Nat} {lease : Lease} (active : (system.coordinators index).active = some lease) :
      LeaseStep (.renew index lease)
        (system.setCalls ((index, .renewing lease) :: system.calls))
  | renewed {index : Nat} {lease : Lease} {now : Int} {before after : List (Nat × LeaseCall)}
      (calls : system.calls = before ++ (index, .renewing lease) :: after)
      (later : system.history.clock ≤ now) :
      LeaseStep (.renewed index lease now)
        ((system.setHistory (system.history.renew leaseSeconds now lease).2).setCalls
          (before ++ (index, .renewed lease
            (system.history.renew leaseSeconds now lease).1) :: after))
  | renewFailed {index : Nat} {lease : Lease} {before after : List (Nat × LeaseCall)}
      (calls : system.calls = before ++ (index, .renewing lease) :: after) :
      LeaseStep (.failed index) (system.setCalls (before ++ after))
  | settle (calls : system.calls = before ++ (index, .renewed lease kept) :: after) :
      LeaseStep (.settle index lease)
        ((system.setCoordinator index
          (if kept then system.coordinators index
          else (system.coordinators index).forget lease)).setCalls (before ++ after))
  | releaseInactive (inactive : (system.coordinators index).active ≠ some lease ∨
        (system.coordinators index).lockOwner = none) :
      LeaseStep (.release index lease) system
  | release (active : (system.coordinators index).active = some lease)
      (owned : (system.coordinators index).lockOwner = some owner) :
      LeaseStep (.release index lease)
        ((system.setCoordinator index { system.coordinators index with
          active := none
          lockOwner := none }).setCalls ((index, .releasing owner lease) :: system.calls))
  | released {index owner : Nat} {lease : Lease} {before after : List (Nat × LeaseCall)}
      (calls : system.calls = before ++ (index, .releasing owner lease) :: after) :
      LeaseStep (.released index lease)
        ((system.setHistory (system.history.release lease)).setCalls
          (before ++ (index, .unlocking owner) :: after))
  | releaseFailed (calls : system.calls = before ++ (index, .releasing owner lease) :: after) :
      LeaseStep (.failed index)
        (system.setCalls (before ++ (index, .unlocking owner) :: after))

end

def leaseMachine (leaseSeconds : Int) : Machine LeaseSystem LeaseEvent where
  initial system := ∃ clock, system = ⟨⟨clock, {}, [], []⟩, fun _ => {}, []⟩
  step := LeaseStep leaseSeconds

inductive SectionRuns (leaseSeconds : Int) (history : LeaseHistory) :
    LeaseEvent → LeaseHistory → Prop
  | attempt {index : Nat} {attempt : Attempt} (later : history.clock ≤ attempt.now)
      (written : attempt.now ≤ attempt.written) :
      SectionRuns leaseSeconds history (.attempt index attempt)
        (history.attempt leaseSeconds attempt).2
  | renewed {index : Nat} {lease : Lease} {now : Int} (later : history.clock ≤ now) :
      SectionRuns leaseSeconds history (.renewed index lease now)
        (history.renew leaseSeconds now lease).2
  | released {index : Nat} {lease : Lease} :
      SectionRuns leaseSeconds history (.released index lease) (history.release lease)
  | undone :
      SectionRuns leaseSeconds history (.undone index lease) (history.release lease)
  | elsewhere : SectionRuns leaseSeconds history event history

variable {leaseSeconds : Int} {system next : LeaseSystem} {event : LeaseEvent}

theorem leaseStep_runs (step : LeaseStep leaseSeconds system event next) :
    SectionRuns leaseSeconds system.history event next.history := by
  cases step with
  | attempt _ later written => exact .attempt later written
  | renewed _ later => exact .renewed later
  | released => exact .released
  | undone => exact .undone
  | _ => exact .elsewhere

theorem leases_fenced (reachable : (leaseMachine leaseSeconds).Reachable system) :
    system.history.Fenced := by
  change (fun system : LeaseSystem => system.history.Fenced) system
  apply reachable.invariant
  · rintro _ ⟨clock, rfl⟩
    exact LeaseHistory.fenced_start
  · intro first event last _ fenced step
    have runs := leaseStep_runs step
    generalize last.history = history at runs ⊢
    cases runs with
    | attempt later written => exact (fenced.attempt later written).1
    | renewed later => exact fenced.renew later
    | released => exact fenced.release
    | undone => exact fenced.release
    | elsewhere => exact fenced

theorem SectionRuns.issued (runs : SectionRuns leaseSeconds history event after) :
    ∀ lease ∈ history.issued, lease ∈ after.issued := by
  intro lease member
  cases runs with
  | @attempt _ attempt =>
    rw [LeaseHistory.attempt]
    generalize tryAcquire leaseSeconds attempt history.files = ending
    obtain ⟨outcome, files⟩ := ending
    dsimp only
    split
    case h_1 => exact List.mem_cons_of_mem _ member
    case h_2 => exact member
  | _ => exact member

variable {lease : Lease}

theorem carried_attempted
    (carried : (LeaseCall.attempted owner abandoned outcome).carried = some lease) :
    outcome = .ok (some lease) := by
  cases outcome with
  | error => cases carried
  | ok answer => rw [show answer = some lease from carried]

/-- A step brings no lease on its way but the one that it takes. -/
theorem leaseStep_carried (step : LeaseStep leaseSeconds system event next)
    (member : call ∈ next.calls) (carried : call.2.carried = some lease) :
    (∃ earlier ∈ system.calls, earlier.2.carried = some lease) ∨
      ∃ index attempt, event = .attempt index attempt ∧
        (system.history.attempt leaseSeconds attempt).1 = .ok (some lease) ∧
          next.history = (system.history.attempt leaseSeconds attempt).2 := by
  have others : ∀ {before after : List (Nat × LeaseCall)} {old : Nat × LeaseCall},
      system.calls = before ++ old :: after → call ∈ before ++ after →
        ∃ earlier ∈ system.calls, earlier.2.carried = some lease := by
    intro before after old calls inside
    refine ⟨call, ?_, carried⟩
    rw [calls]
    cases List.mem_append.mp inside with
    | inl front => exact List.mem_append_left _ front
    | inr back => exact List.mem_append_right _ (List.mem_cons_of_mem _ back)
  have replaced : ∀ {before after : List (Nat × LeaseCall)} {old new : Nat × LeaseCall},
      system.calls = before ++ old :: after → (new.2.carried = some lease → old.2.carried =
      some lease) →
        call ∈ before ++ new :: after → ∃ earlier ∈ system.calls, earlier.2.carried = some
        lease := by
    intro before after old new calls same inside
    cases List.mem_append.mp inside with
    | inl front => exact others calls (List.mem_append_left _ front)
    | inr back =>
      cases List.mem_cons.mp back with
      | inr rest => exact others calls (List.mem_append_right _ rest)
      | inl own =>
        refine ⟨old, ?_, same (own ▸ carried)⟩
        rw [calls]
        exact List.mem_append_right _ List.mem_cons_self
  have started : ∀ {new : Nat × LeaseCall}, new.2.carried ≠ some lease → call ∈
    new :: system.calls → ∃ earlier ∈ system.calls, earlier.2.carried = some lease := by
    intro new different inside
    cases List.mem_cons.mp inside with
    | inl own => exact absurd (own ▸ carried) different
    | inr earlier => exact ⟨call, earlier, carried⟩
  cases step with
  | acquire => exact .inl (started (by nofun) member)
  | abandonAttempt calls => exact .inl (replaced calls (by nofun) member)
  | abandonOutcome calls =>
    refine .inl (replaced calls (fun same => ?_) member)
    rw [carried_attempted same]
    rfl
  | @attempt index owner abandoned before after attempt calls =>
    cases List.mem_append.mp member with
    | inl front => exact .inl (others calls (List.mem_append_left _ front))
    | inr back =>
      cases List.mem_cons.mp back with
      | inr rest => exact .inl (others calls (List.mem_append_right _ rest))
      | inl own =>
        rw [own] at carried
        exact .inr ⟨index, attempt, rfl, carried_attempted carried, rfl⟩
  | retry calls => exact .inl (replaced calls (by nofun) member)
  | giveUp calls => exact .inl (others calls member)
  | acquired calls => exact .inl (others calls member)
  | undo calls => exact .inl (replaced calls (by nofun) member)
  | undone calls => exact .inl (replaced calls (by nofun) member)
  | undoFailed calls => exact .inl (replaced calls (by nofun) member)
  | unlock calls => exact .inl (others calls member)
  | renewInactive => exact .inl ⟨call, member, carried⟩
  | renew => exact .inl (started (by nofun) member)
  | renewed calls => exact .inl (replaced calls (by nofun) member)
  | renewFailed calls => exact .inl (others calls member)
  | settle calls => exact .inl (others calls member)
  | releaseInactive => exact .inl ⟨call, member, carried⟩
  | release => exact .inl (started (by nofun) member)
  | released calls => exact .inl (replaced calls (by nofun) member)
  | releaseFailed calls => exact .inl (replaced calls (by nofun) member)

theorem carried_issued (reachable : (leaseMachine leaseSeconds).Reachable system) :
    ∀ call ∈ system.calls, ∀ lease, call.2.carried = some lease →
      lease ∈ system.history.issued := by
  change (fun system : LeaseSystem => ∀ call ∈ system.calls, ∀ lease,
    call.2.carried = some lease → lease ∈ system.history.issued) system
  apply reachable.invariant
  · rintro _ ⟨clock, rfl⟩
    nofun
  · intro first event last _ holds step call member lease carried
    cases leaseStep_carried step member carried with
    | inl earlier =>
      obtain ⟨old, oldMember, oldCarried⟩ := earlier
      exact (leaseStep_runs step).issued lease (holds old oldMember lease oldCarried)
    | inr taken =>
      obtain ⟨index, attempt, _, outcome, same⟩ := taken
      rw [same, LeaseHistory.issued_of_taken outcome]
      exact List.mem_cons_self

/-- The sections hand out leases with ever larger fences, at most one promise has not run out,
and a lease with a successor neither renews nor releases. -/
theorem leases_are_fenced (reachable : (leaseMachine leaseSeconds).Reachable system) :
    (system.history.issued.Pairwise fun later earlier => earlier.fence < later.fence) ∧
    (∀ index attempt next, LeaseStep leaseSeconds system (.attempt index attempt) next →
      next.history.issued = system.history.issued ∨ ∃ lease,
        next.history.issued = lease :: system.history.issued ∧
          ∀ earlier ∈ system.history.issued, earlier.fence < lease.fence) ∧
    (∀ index lease next, LeaseStep leaseSeconds system (.acquired index lease) next →
      lease ∈ system.history.issued) ∧
    (∀ left ∈ system.history.promised, ∀ right ∈ system.history.promised,
      system.history.clock < left.2 → system.history.clock < right.2 → left = right) ∧
    ∀ lease, (∃ later ∈ system.history.issued, lease.fence < later.fence) → ∀ index now next,
      LeaseStep leaseSeconds system (.renewed index lease now) next ∨
        LeaseStep leaseSeconds system (.released index lease) next ∨
        LeaseStep leaseSeconds system (.undone index lease) next →
      next.history.files = system.history.files := by
  have fenced := leases_fenced reachable
  refine ⟨fenced.ordered, ?_, ?_, ?_, ?_⟩
  · intro index attempt next step
    cases step with
    | attempt _ later written =>
      by_cases taken : ∃ lease, (system.history.attempt leaseSeconds attempt).1 = .ok (some lease)
      case pos =>
        obtain ⟨lease, outcome⟩ := taken
        exact .inr ⟨lease, LeaseHistory.issued_of_taken outcome,
          (fenced.attempt later written).2 lease outcome⟩
      case neg => exact .inl (LeaseHistory.issued_of_untaken (not_exists.mp taken))
  · intro index lease next step
    cases step with
    | @acquired _ owner _ _ _ calls =>
      refine carried_issued reachable (index, .attempted owner false (.ok (some lease))) ?_
        lease rfl
      rw [calls]
      exact List.mem_append_right _ List.mem_cons_self
  · intro left leftPromised right rightPromised
    exact fenced.exclusive leftPromised rightPromised
  · rintro lease ⟨later, issued, outdated⟩ index now next step
    have other := fenced.outdated issued outdated
    obtain renewed | released | undone := step
    · cases renewed with
      | renewed =>
        exact congrArg Prod.snd (LeaseHistory.renewRecord_of_other other)
    · cases released with
      | released => exact LeaseHistory.releaseRecord_of_other other
    · cases undone with
      | undone => exact LeaseHistory.releaseRecord_of_other other

/-- A renewal of a lease that ran out at 30 reaches the files at 41, after another took over. -/
theorem sample_late_renewal_changes_nothing : ∃ system next,
    (leaseMachine 30).Reachable system ∧ system.history.issued = [⟨2, "b"⟩, ⟨1, "a"⟩] ∧
      LeaseStep 30 system (.renewed 0 ⟨1, "a"⟩ 41) next ∧
      next.history.files = system.history.files := by
  have start : (leaseMachine 30).Reachable ⟨⟨0, {}, [], []⟩, fun _ => {}, []⟩ :=
    .of_initial ⟨0, rfl⟩
  have first := start.step (@LeaseStep.acquire 30 _ 0 7 rfl)
  have second := first.step
    (@LeaseStep.attempt 30 _ 0 7 false [] [] ⟨0, 0, "a", none⟩ rfl (by decide) (by decide))
  have held := second.step (@LeaseStep.acquired 30 _ 0 7 [] [] ⟨1, "a"⟩ rfl)
  have renewing := held.step (@LeaseStep.renew 30 _ 0 ⟨1, "a"⟩ rfl)
  have third := renewing.step (@LeaseStep.acquire 30 _ 1 8 rfl)
  have fourth := third.step
    (@LeaseStep.attempt 30 _ 1 8 false [] _ ⟨40, 40, "b", none⟩ rfl (by decide +kernel) (by decide))
  have late (system : LeaseSystem) (reached : (leaseMachine 30).Reachable system)
      (issued : system.history.issued = [⟨2, "b"⟩, ⟨1, "a"⟩]) (clock : system.history.clock ≤ 41)
      (calls : system.calls = [(1, .attempted 8 false (.ok (some ⟨2, "b"⟩)))] ++
        [(0, .renewing ⟨1, "a"⟩)]) : ∃ next, LeaseStep 30 system (.renewed 0 ⟨1, "a"⟩ 41) next ∧
        next.history.files = system.history.files := by
    have step := @LeaseStep.renewed 30 system 0 ⟨1, "a"⟩ 41 _ [] calls clock
    refine ⟨_, step, (leases_are_fenced reached).2.2.2.2 ⟨1, "a"⟩ ⟨⟨2, "b"⟩, ?_, by decide⟩ 0 41 _
      (.inl step)⟩
    rw [issued]
    exact List.mem_cons_self
  obtain ⟨next, step, same⟩ := late _ fourth (by decide +kernel) (by decide +kernel) rfl
  exact ⟨_, next, fourth, by decide +kernel, step, same⟩

end Linktools.Storage
