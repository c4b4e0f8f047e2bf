import Linktools.Cache.BatchScopes
import Mathlib.Data.List.Nodup
import Mathlib.Data.List.Perm.Subperm

namespace Linktools.Cache

open Library List

variable {Key : Type} {scope after : BatchScope Key} {batchSize : Nat}
  {rest tail batch queue : List (Entry Key)}

namespace Observed

variable (observed : Observed Key)

def settled : List (Entry Key) := observed.confirmed ++ observed.unconfirmed

end Observed

def BatchScope.underway (scope : BatchScope Key) : List (Entry Key) :=
  (scope.admission.filter (·.published)).toList.map (·.entry)

def BatchScope.calling (scope : BatchScope Key) : List (Entry Key) :=
  scope.admission.toList.map (·.entry)

/-- Where the entries of the buffer stand while the writer is here: behind those that it has
taken come the rest of the admitted ones, and then a tail that nothing has admitted yet. -/
def Positioned (scope : BatchScope Key) (rest tail : List (Entry Key)) : Prop :=
  match scope.writer with
  | .absent | .looping =>
    scope.queue = rest ++ tail ∧ scope.settled = scope.observed.handed.length ∧
      scope.observed.settled.Perm scope.observed.handed
  | .reading limit =>
    scope.queue = rest ++ tail ∧ scope.settled = scope.observed.handed.length ∧
      scope.observed.settled.Perm scope.observed.handed ∧ limit ≤ rest.length
  | .writing batch =>
    scope.queue = batch ++ (rest ++ tail) ∧
      ∃ done, scope.observed.handed = done ++ batch ∧ scope.settled = done.length ∧
        scope.observed.settled.Perm done
  | .acking batch =>
    (scope.queue = batch ++ (rest ++ tail) ∨ scope.queue = rest ++ tail) ∧
      scope.observed.settled.Perm scope.observed.handed ∧
      ∃ done, scope.observed.handed = done ++ batch ∧ scope.settled = done.length
  | .finished _ => True

def Placed (scope : BatchScope Key) (rest tail : List (Entry Key)) : Prop :=
  scope.observed.admitted = scope.observed.handed ++ rest ∧
    (∀ entry ∈ tail, entry.id ∉ scope.observed.admitted.map (·.id)) ∧
    (scope.unknown = [] → tail = scope.underway) ∧ Positioned scope rest tail

def Writer.Done : Writer Key → Prop
  | .absent | .finished _ => True
  | _ => False

def Closing.Quiet : Closing Key → Prop
  | .unasked | .waiting => False
  | _ => True

def Closing.Late : Closing Key → Prop
  | .unasked | .waiting | .draining => False
  | _ => True

structure BatchSound (scope : BatchScope Key) : Prop where
  accepted : scope.accepted = scope.observed.admitted.length
  confirmed : scope.confirmed = scope.observed.confirmed.length
  unconfirmed : scope.unconfirmed = scope.observed.unconfirmed.length
  distinct : ((scope.observed.admitted ++ scope.unknown ++ scope.calling).map (·.id)).Nodup
  order : scope.observed.handed <+: scope.observed.admitted
  once : scope.observed.settled.Nodup
  within : scope.observed.settled ⊆ scope.observed.admitted
  flushed : ∃ done, done <+: scope.observed.admitted ∧ scope.settled = done.length ∧
    done ⊆ scope.observed.settled
  lost : scope.unknown ≠ [] → scope.accepting = false ∧ scope.admission = none
  stopped : scope.closing ≠ .unasked → scope.accepting = false
  quiet : scope.closing.Quiet → scope.admission = none
  late : scope.closing.Late → scope.writer.Done
  placed : ¬scope.closing.Late → (∃ failed, scope.writer = .finished failed) ∨
    ∃ rest tail, Placed scope rest tail
  closed : scope.closing = .closed → scope.observed.admitted ⊆ scope.observed.settled

theorem batchSound_initial : BatchSound ({ scheduled := scheduled } : BatchScope Key) where
  accepted := rfl
  confirmed := rfl
  unconfirmed := rfl
  distinct := nodup_nil
  order := nil_prefix
  once := nodup_nil
  within := nil_subset _
  flushed := ⟨[], nil_prefix, rfl, nil_subset _⟩
  lost := nofun
  stopped := absurd rfl
  quiet := nofun
  late := nofun
  placed _ := .inr ⟨[], [], rfl, nofun, fun _ => rfl, rfl, rfl, .refl _⟩
  closed := nofun

theorem BatchSound.of_flags (sound : BatchSound scope) (same : after = { scope with
      scheduled := after.scheduled
      accepting := after.accepting
      stopRequested := after.stopRequested
      rejected := after.rejected
      writeFailures := after.writeFailures
      highWatermark := after.highWatermark
      lastFailureCode := after.lastFailureCode
      flushTarget := after.flushTarget
      backendFailure := after.backendFailure })
    (accepting : after.accepting = true → scope.accepting = true) : BatchSound after := by
  have still (closed : scope.accepting = false) : after.accepting = false := by
    by_contra opened
    rw [accepting (Bool.not_eq_false _ ▸ opened)] at closed
    cases closed
  rw [same]
  exact { sound with
    lost := fun unknown => ⟨still (sound.lost unknown).1, (sound.lost unknown).2⟩
    stopped := fun asked => still (sound.stopped asked) }

theorem BatchSound.admitted_distinct (sound : BatchSound scope) :
    (scope.observed.admitted.map (·.id)).Nodup := by
  have distinct := sound.distinct
  rw [append_assoc, map_append] at distinct
  exact (nodup_append.mp distinct).1

theorem Closing.Late.quiet {closing : Closing Key} (late : closing.Late) : closing.Quiet := by
  cases closing <;> first | exact late | trivial

variable {admission : Admission Key}

section

variable (sound : BatchSound scope)
include sound

theorem BatchSound.not_quiet_of_calling
    (calling : scope.admission = some admission) : ¬scope.closing.Quiet := by
  intro quiet
  rw [sound.quiet quiet] at calling
  cases calling

theorem BatchSound.unknown_of_calling
    (calling : scope.admission = some admission) : scope.unknown = [] := by
  by_contra unknown
  rw [(sound.lost unknown).2] at calling
  cases calling

theorem BatchSound.not_quiet_of_accepting
    (accepting : scope.accepting = true) : ¬scope.closing.Quiet := by
  intro quiet
  rw [sound.stopped (by rintro asked; rw [asked] at quiet; exact quiet)] at accepting
  cases accepting

theorem BatchSound.not_late (working : ¬scope.writer.Done) : ¬scope.closing.Late :=
  fun late => working (sound.late late)

theorem BatchSound.exists_placed (working : ¬scope.writer.Done) :
    ∃ rest tail, Placed scope rest tail := by
  cases sound.placed (sound.not_late working) with
  | inl finished =>
    obtain ⟨failed, finished⟩ := finished
    rw [finished] at working
    exact absurd trivial working
  | inr placed => exact placed

end

variable {entry : Entry Key}

theorem Positioned.publish {admission : Option (Admission Key)}
    (positioned : Positioned scope rest tail) :
    Positioned { scope with admission := admission, queue := scope.queue ++ [entry] } rest
      (tail ++ [entry]) := by
  unfold Positioned at positioned ⊢
  dsimp only
  cases writer : scope.writer with
  | absent | looping =>
    rw [writer] at positioned
    obtain ⟨queue, others⟩ := positioned
    refine ⟨?_, others⟩
    rw [queue, append_assoc]
  | reading limit =>
    rw [writer] at positioned
    obtain ⟨queue, others⟩ := positioned
    refine ⟨?_, others⟩
    rw [queue, append_assoc]
  | writing batch =>
    rw [writer] at positioned
    obtain ⟨queue, others⟩ := positioned
    refine ⟨?_, others⟩
    rw [queue, append_assoc, append_assoc]
  | acking batch =>
    rw [writer] at positioned
    obtain ⟨queue, others⟩ := positioned
    refine ⟨queue.imp ?_ ?_, others⟩
    · intro queue
      rw [queue, append_assoc, append_assoc]
    · intro queue
      rw [queue, append_assoc]
  | finished failed => trivial

theorem Positioned.admitted (positioned : Positioned scope rest [entry]) :
    Positioned (scope.admitted entry) (rest ++ [entry]) [] := by
  unfold Positioned at positioned ⊢
  unfold BatchScope.admitted
  dsimp only
  rw [append_nil]
  cases writer : scope.writer with
  | absent | looping =>
    rw [writer] at positioned
    exact positioned
  | reading limit =>
    rw [writer] at positioned
    obtain ⟨queue, taken, settled, bounded⟩ := positioned
    refine ⟨queue, taken, settled, bounded.trans ?_⟩
    rw [length_append]
    exact Nat.le_add_right _ _
  | writing batch =>
    rw [writer] at positioned
    exact positioned
  | acking batch =>
    rw [writer] at positioned
    exact positioned
  | finished failed => trivial

theorem BatchSound.dropped (sound : BatchSound scope)
    (calling : scope.admission = some { entry := entry }) :
    BatchSound { scope with admission := none } :=
  { sound with
    distinct := by
      have distinct := sound.distinct
      rw [map_append] at distinct
      change ((scope.observed.admitted ++ scope.unknown ++ []).map Entry.id).Nodup
      rw [append_nil]
      exact (nodup_append.mp distinct).1
    lost := fun lost => ⟨(sound.lost lost).1, rfl⟩
    quiet := fun _ => rfl
    placed := fun late => (sound.placed late).imp_right fun placed => by
      obtain ⟨rest, tail, admitted, apart, underway, positioned⟩ := placed
      refine ⟨rest, tail, admitted, apart, fun unknown => ?_, positioned⟩
      rw [underway unknown, BatchScope.underway, calling]
      rfl }

theorem BatchSound.of_admissionStep (sound : BatchSound scope)
    (step : AdmissionStep scope after) : BatchSound after := by
  cases step with
  | @began entry free accepting fresh =>
    have early := sound.not_quiet_of_accepting accepting
    have none : scope.calling = [] := by
      rw [BatchScope.calling, free]
      rfl
    exact { sound with
      distinct := by
        have distinct := sound.distinct
        rw [none, append_nil] at distinct
        rw [map_append, nodup_append]
        refine ⟨distinct, pairwise_singleton _ _, fun id member other single same => ?_⟩
        have own : id = entry.id := same.trans (mem_singleton.mp single)
        exact fresh (own ▸ member)
      lost := fun unknown => by
        rw [(sound.lost unknown).1] at accepting
        cases accepting
      quiet := fun quiet => absurd quiet early
      placed := fun late => (sound.placed late).imp_right fun placed => by
        obtain ⟨rest, tail, admitted, apart, underway, positioned⟩ := placed
        refine ⟨rest, tail, admitted, apart, fun unknown => ?_, positioned⟩
        rw [underway unknown, BatchScope.underway, free]
        rfl }
  | refused closed => exact sound.of_flags rfl id
  | @published entry calling =>
    have early := sound.not_quiet_of_calling calling
    have unknown := sound.unknown_of_calling calling
    have underway : scope.underway = [] := by
      rw [BatchScope.underway, calling]
      rfl
    have same : scope.calling = [entry] := by
      rw [BatchScope.calling, calling]
      rfl
    have apart : entry.id ∉ scope.observed.admitted.map (·.id) := by
      have distinct := sound.distinct
      rw [same, map_append, nodup_append] at distinct
      intro member
      refine distinct.2.2 entry.id ?_ entry.id mem_cons_self rfl
      rw [map_append]
      exact mem_append_left _ member
    exact { sound with
      distinct := by
        have distinct := sound.distinct
        rw [same] at distinct
        exact distinct
      lost := fun lost => absurd unknown lost
      quiet := fun quiet => absurd quiet early
      placed := fun late => (sound.placed late).imp_right fun placed => by
        obtain ⟨rest, tail, admitted, _, tailEq, positioned⟩ := placed
        have empty := (tailEq unknown).trans underway
        subst empty
        refine ⟨rest, [entry], admitted, ?_, fun _ => rfl, positioned.publish⟩
        intro other member
        rw [mem_singleton.mp member]
        exact apart }
  | @admitted entry calling =>
    have early := sound.not_quiet_of_calling calling
    have unknown := sound.unknown_of_calling calling
    have underway : scope.underway = [entry] := by
      rw [BatchScope.underway, calling]
      rfl
    have same : scope.calling = [entry] := by
      rw [BatchScope.calling, calling]
      rfl
    exact {
      accepted := by
        change scope.accepted + 1 = (scope.observed.admitted ++ [entry]).length
        rw [sound.accepted, length_append, length_singleton]
      confirmed := sound.confirmed
      unconfirmed := sound.unconfirmed
      distinct := by
        have distinct := sound.distinct
        rw [same, unknown, append_nil] at distinct
        change ((scope.observed.admitted ++ [entry] ++ scope.unknown ++ []).map Entry.id).Nodup
        rw [unknown, append_nil, append_nil]
        exact distinct
      order := sound.order.trans (prefix_append _ _)
      once := sound.once
      within := fun other member => mem_append_left _ (sound.within member)
      flushed := by
        obtain ⟨done, front, taken, settled⟩ := sound.flushed
        exact ⟨done, front.trans (prefix_append _ _), taken, settled⟩
      lost := fun lost => absurd unknown lost
      stopped := sound.stopped
      quiet := fun _ => rfl
      late := fun late => absurd late.quiet early
      placed := fun late => by
        cases sound.placed late with
        | inl finished =>
          left
          obtain ⟨failed, finished⟩ := finished
          refine ⟨failed, ?_⟩
          unfold BatchScope.admitted
          rw [finished]
        | inr placed =>
          right
          obtain ⟨rest, tail, admitted, _, tailEq, positioned⟩ := placed
          have single := (tailEq unknown).trans underway
          subst single
          refine ⟨rest ++ [entry], [], ?_, nofun, fun _ => rfl, positioned.admitted⟩
          change scope.observed.admitted ++ [entry] = scope.observed.handed ++ (rest ++ [entry])
          rw [admitted, append_assoc]
      closed := fun closed => by
        change scope.closing = .closed at closed
        rw [closed] at early
        exact absurd trivial early }
  | rejected calling => exact (sound.dropped calling).of_flags rfl id
  | cancelled calling => exact sound.dropped calling
  | @raised admission calling =>
    have early := sound.not_quiet_of_calling calling
    have same : scope.calling = [admission.entry] := by
      rw [BatchScope.calling, calling]
      rfl
    have failed : BatchSound scope.backendFailed := sound.of_flags rfl nofun
    exact { failed with
      distinct := by
        have distinct := sound.distinct
        rw [same, append_assoc] at distinct
        change ((scope.observed.admitted ++ (scope.unknown ++ [admission.entry]) ++ []).map
          Entry.id).Nodup
        rw [append_nil]
        exact distinct
      lost := fun _ => ⟨rfl, rfl⟩
      quiet := fun _ => rfl
      placed := fun late => (failed.placed late).imp_right fun placed => by
        obtain ⟨rest, tail, admitted, apart, _, positioned⟩ := placed
        exact ⟨rest, tail, admitted, apart,
          fun unknown => absurd unknown (append_ne_nil_of_right_ne_nil _ nofun), positioned⟩ }
  | flushed target_le => exact sound.of_flags rfl id

theorem BatchSound.finished {queue : List (Entry Key)} (failed : Bool)
    (sound : BatchSound scope) (working : ¬scope.writer.Done) :
    BatchSound { scope with queue := queue, writer := .finished failed } :=
  have early := sound.not_late working
  { sound with
    late := fun late => absurd late early
    placed := fun _ => .inl ⟨failed, rfl⟩ }

variable {others : List (Entry Key)}

theorem acknowledge_of_append (queue : scope.queue = batch ++ others ∨ scope.queue = others)
    (apart : ∀ entry ∈ others, entry.id ∉ batch.map (·.id)) : scope.acknowledge batch = others := by
  have own : batch.filter (fun entry => entry.id ∉ batch.map (·.id)) = [] := by
    rw [filter_eq_nil_iff]
    intro entry member
    simpa using ⟨entry, member, rfl⟩
  have kept : others.filter (fun entry => entry.id ∉ batch.map (·.id)) = others := by
    rw [filter_eq_self]
    intro entry member
    exact decide_eq_true (apart entry member)
  unfold BatchScope.acknowledge
  cases queue with
  | inl held => rw [held, filter_append, own, kept, nil_append]
  | inr gone => rw [gone, kept]

theorem BatchSound.apart_of_placed (sound : BatchSound scope) (placed : Placed scope rest tail)
    (handed : scope.observed.handed = done ++ batch) :
    ∀ entry ∈ rest ++ tail, entry.id ∉ batch.map (·.id) := by
  obtain ⟨admitted, apart, _, _⟩ := placed
  intro entry member inside
  cases mem_append.mp member with
  | inl behind =>
    have distinct := sound.admitted_distinct
    rw [admitted, handed, append_assoc, map_append, map_append] at distinct
    exact (nodup_append.mp (nodup_append.mp distinct).2.1).2.2 entry.id inside entry.id
      (mem_map.mpr ⟨entry, behind, rfl⟩) rfl
  | inr unadmitted =>
    apply apart entry unadmitted
    rw [admitted, handed, append_assoc, map_append, map_append]
    exact mem_append_right _ (mem_append_left _ inside)

theorem prefix_of_bounded (answer : batch <+: rest ++ others)
    (bounded : batch.length ≤ rest.length) : ∃ left, rest = batch ++ left := by
  obtain ⟨left, same⟩ := prefix_of_prefix_length_le answer (prefix_append rest others)
    bounded
  exact ⟨left, same.symm⟩

section

variable (sound : BatchSound scope)
include sound

theorem BatchSound.handed {limit : Nat}
    (reading : scope.writer = .reading limit) (answer : batch <+: scope.queue)
    (bounded : batch.length ≤ limit) : BatchSound (scope.hand batch) := by
  have working : ¬scope.writer.Done := by
    rw [reading]
    exact id
  have early := sound.not_late working
  obtain ⟨rest, tail, admitted, apart, underway, positioned⟩ := sound.exists_placed working
  unfold Positioned at positioned
  rw [reading] at positioned
  obtain ⟨queue, taken, settled, within⟩ := positioned
  rw [queue] at answer
  obtain ⟨left, split⟩ := prefix_of_bounded answer (bounded.trans within)
  have placed : scope.observed.admitted = scope.observed.handed ++ batch ++ left := by
    rw [admitted, split, append_assoc]
  exact { sound with
    order := ⟨left, placed.symm⟩
    late := fun late => absurd late early
    placed := fun _ => by
      refine .inr ⟨left, tail, placed, apart, underway, ?_, scope.observed.handed, rfl, taken,
        settled⟩
      change scope.queue = batch ++ (left ++ tail)
      rw [queue, split, append_assoc] }

/-- The sink has answered for a batch: from then on its entries are settled. -/
theorem BatchSound.answered (writing : scope.writer = .writing batch) (same : after = { scope with
      confirmed := after.confirmed
      unconfirmed := after.unconfirmed
      writeFailures := after.writeFailures
      lastFailureCode := after.lastFailureCode
      writer := .acking batch
      observed := { scope.observed with
        confirmed := after.observed.confirmed
        unconfirmed := after.observed.unconfirmed } })
    (confirmed : after.confirmed = after.observed.confirmed.length)
    (unconfirmed : after.unconfirmed = after.observed.unconfirmed.length)
    (settled : after.observed.settled.Perm (scope.observed.settled ++ batch)) :
    BatchSound after := by
  have working : ¬scope.writer.Done := by
    rw [writing]
    exact id
  have early := sound.not_late working
  obtain ⟨rest, tail, admitted, apart, underway, positioned⟩ := sound.exists_placed working
  unfold Positioned at positioned
  rw [writing] at positioned
  obtain ⟨queue, done, handed, taken, perm⟩ := positioned
  have all : after.observed.settled.Perm scope.observed.handed := by
    rw [handed]
    exact settled.trans (perm.append_right batch)
  have entries : scope.observed.handed.Nodup :=
    (List.Nodup.of_map _ sound.admitted_distinct).sublist sound.order.sublist
  rw [same] at all ⊢
  exact { sound with
    confirmed := confirmed
    unconfirmed := unconfirmed
    once := all.nodup_iff.mpr entries
    within := fun entry member => sound.order.subset (all.subset member)
    flushed := by
      refine ⟨done, (prefix_append done batch).trans (handed ▸ sound.order), taken, ?_⟩
      intro entry member
      exact all.symm.subset (handed ▸ mem_append_left _ member)
    late := fun late => absurd late early
    placed := fun _ => .inr ⟨rest, tail, admitted, apart, underway, .inl queue, all, done, handed,
      taken⟩
    closed := fun closed => by
      change scope.closing = .closed at closed
      rw [closed] at early
      exact absurd trivial early }

theorem BatchSound.acked (acking : scope.writer = .acking batch) : BatchSound { scope with
      queue := scope.acknowledge batch
      settled := scope.settled + batch.length
      writer := .looping } := by
  have working : ¬scope.writer.Done := by
    rw [acking]
    exact id
  have early := sound.not_late working
  obtain ⟨rest, tail, placed⟩ := sound.exists_placed working
  have ⟨admitted, apart, underway, positioned⟩ := placed
  unfold Positioned at positioned
  rw [acking] at positioned
  obtain ⟨queue, settled, done, handed, taken⟩ := positioned
  have all : scope.settled + batch.length = scope.observed.handed.length := by
    rw [taken, handed, length_append]
  exact { sound with
    flushed := ⟨scope.observed.handed, sound.order, all, settled.symm.subset⟩
    late := fun late => absurd late early
    placed := fun _ => by
      refine .inr ⟨rest, tail, admitted, apart, underway, ?_, all, settled⟩
      exact acknowledge_of_append queue (sound.apart_of_placed placed handed) }

/-- A call of `ack` that raises leaves the batch at the head of the queue, or has released it. -/
theorem BatchSound.retried (acking : scope.writer = .acking batch)
    (released : scope.Released batch queue) : BatchSound { scope with queue := queue } := by
  have working : ¬scope.writer.Done := by
    rw [acking]
    exact id
  obtain ⟨rest, tail, placed⟩ := sound.exists_placed working
  have ⟨admitted, apart, underway, positioned⟩ := placed
  unfold Positioned at positioned
  rw [acking] at positioned
  obtain ⟨held, settled, done, handed, taken⟩ := positioned
  exact { sound with
    placed := fun _ => by
      refine .inr ⟨rest, tail, admitted, apart, underway, ?_⟩
      unfold Positioned
      dsimp only
      rw [acking]
      refine ⟨?_, settled, done, handed, taken⟩
      cases released with
      | inl same => exact same ▸ held
      | inr gone =>
        right
        rw [gone]
        exact acknowledge_of_append held (sound.apart_of_placed placed handed) }

theorem BatchSound.of_backendFailed : BatchSound scope.backendFailed :=
  sound.of_flags rfl nofun

theorem BatchSound.cancelled :
    BatchSound (if scope.stopRequested then scope else scope.backendFailed) := by
  split
  case isTrue => exact sound
  case isFalse => exact sound.of_backendFailed

end

theorem writer_of_cancelled :
    (if scope.stopRequested then scope else scope.backendFailed).writer = scope.writer := by
  split <;> rfl

section

variable (sound : BatchSound scope)
include sound

theorem BatchSound.of_writerStep (step : WriterStep batchSize scope after) : BatchSound after := by
  have working {writer : Writer Key} (here : scope.writer = writer) (busy : ¬writer.Done) :
      ¬scope.writer.Done := by
    rw [here]
    exact busy
  cases step with
  | stopped looping stop => exact sound.finished false (working looping id)
  | cancelled looping => exact sound.finished false (working looping id)
  | asked looping =>
    have early := sound.not_late (working looping id)
    obtain ⟨rest, tail, admitted, apart, underway, positioned⟩ :=
      sound.exists_placed (working looping id)
    unfold Positioned at positioned
    rw [looping] at positioned
    obtain ⟨queue, taken, settled⟩ := positioned
    have bounded : scope.batchLimit batchSize ≤ rest.length := by
      have pending : scope.pending = rest.length := by
        rw [BatchScope.pending, sound.accepted, taken, admitted, length_append]
        exact Nat.add_sub_cancel_left _ _
      rw [← pending]
      unfold BatchScope.batchLimit
      split
      case isTrue => exact (min_le_left _ _).trans (min_le_left _ _)
      case isFalse => exact min_le_left _ _
    exact { sound with
      late := fun late => absurd late early
      placed := fun _ =>
        .inr ⟨rest, tail, admitted, apart, underway, queue, taken, settled, bounded⟩ }
  | handed reading answer bounded going => exact sound.handed reading answer bounded.2
  | returned reading stop => exact sound.finished false (working reading id)
  | raised reading => exact sound.finished true (working reading id)
  | readCancelled reading =>
    exact sound.cancelled.finished false (by rw [writer_of_cancelled]; exact working reading id)
  | @confirmed batch writing =>
    apply sound.answered writing rfl
    · change scope.confirmed + batch.length = (scope.observed.confirmed ++ batch).length
      rw [sound.confirmed, length_append]
    · exact sound.unconfirmed
    · change (scope.observed.confirmed ++ batch ++ scope.observed.unconfirmed).Perm
        (scope.observed.confirmed ++ scope.observed.unconfirmed ++ batch)
      rw [append_assoc, append_assoc]
      exact perm_append_comm.append_left _
  | @writeFailed batch code writing =>
    apply sound.answered writing rfl
    · exact sound.confirmed
    · change scope.unconfirmed + batch.length = (scope.observed.unconfirmed ++ batch).length
      rw [sound.unconfirmed, length_append]
    · change (scope.observed.confirmed ++ (scope.observed.unconfirmed ++ batch)).Perm
        (scope.observed.confirmed ++ scope.observed.unconfirmed ++ batch)
      rw [append_assoc]
  | timedOut writing => exact sound.of_flags rfl id
  | interrupted writing => exact sound.of_flags rfl nofun
  | acked acking => exact sound.acked acking
  | retried acking released => exact sound.retried acking released
  | gaveUp acking released => exact sound.finished true (working acking id)
  | ackCancelled acking released =>
    exact sound.cancelled.finished false (by rw [writer_of_cancelled]; exact working acking id)
  | ackInterrupted acking => exact sound.finished false (working acking id)
  | reported dead =>
    exact { sound.of_backendFailed with
      late := fun _ => trivial
      placed := fun _ => .inl ⟨false, rfl⟩ }

theorem BatchSound.settled_length :
    scope.observed.settled.length = scope.confirmed + scope.unconfirmed := by
  rw [sound.confirmed, sound.unconfirmed]
  exact length_append

theorem BatchSound.closing {closing : Closing Key}
    (late : closing.Late) (before : scope.closing.Late) (unfinished : closing ≠ .closed) :
    BatchSound { scope with closing := closing, queue := queue } :=
  { sound with
    stopped := fun _ => sound.stopped (by rintro asked; rw [asked] at before; exact before)
    quiet := fun _ => sound.quiet before.quiet
    late := fun _ => sound.late before
    placed := fun early => absurd late early
    closed := fun closed => absurd closed unfinished }

theorem BatchSound.release
    (acking : scope.closing = .acking batch) : BatchSound (scope.release batch) := by
  have quiet : scope.admission = none := sound.quiet (by rw [acking]; trivial)
  have closed : scope.accepting = false := sound.stopped (by rw [acking]; nofun)
  have calling : scope.calling = [] := by
    rw [BatchScope.calling, quiet]
    rfl
  have distinct : ((scope.observed.admitted ++ scope.unknown).map Entry.id).Nodup := by
    have distinct := sound.distinct
    rw [calling, append_nil] at distinct
    exact distinct
  have entries := List.Nodup.of_map _ distinct
  have counted : scope.unknownIn batch ⊆ scope.unknown := fun entry member =>
    (mem_filter.mp member).1
  have late : (scope.release batch).closing.Late := trivial
  constructor
  case accepted =>
    change scope.accepted + (scope.unknownIn batch).length =
      (scope.observed.admitted ++ scope.unknownIn batch).length
    rw [sound.accepted, length_append]
  case confirmed => exact sound.confirmed
  case unconfirmed =>
    change scope.unconfirmed + (scope.unknownIn batch).length =
      (scope.observed.unconfirmed ++ scope.unknownIn batch).length
    rw [sound.unconfirmed, length_append]
  case distinct =>
    have split : (scope.unknownIn batch ++
        scope.unknown.filter fun entry => entry.id ∉ batch.map (·.id)).Perm scope.unknown := by
      have perm := filter_append_perm
        (fun entry : Entry Key => decide (entry.id ∈ batch.map (·.id))) scope.unknown
      simpa only [decide_not, BatchScope.unknownIn] using perm
    have same := ((split.append_left scope.observed.admitted).map Entry.id).nodup_iff.mpr distinct
    change ((scope.observed.admitted ++ scope.unknownIn batch ++
      (scope.unknown.filter fun entry => entry.id ∉ batch.map (·.id)) ++ scope.calling).map
        Entry.id).Nodup
    rw [calling, append_nil, append_assoc]
    exact same
  case order => exact sound.order.trans (prefix_append _ _)
  case once =>
    obtain ⟨_, unknownOnce, apart⟩ := nodup_append.mp entries
    change (scope.observed.confirmed ++ (scope.observed.unconfirmed ++ scope.unknownIn batch)).Nodup
    rw [← append_assoc, nodup_append]
    refine ⟨sound.once, unknownOnce.filter _, fun entry settled other member same => ?_⟩
    exact apart entry (sound.within settled) other (counted member) same
  case within =>
    intro entry member
    change entry ∈ scope.observed.confirmed ++
      (scope.observed.unconfirmed ++ scope.unknownIn batch) at member
    rw [← append_assoc] at member
    cases mem_append.mp member with
    | inl settled => exact mem_append_left _ (sound.within settled)
    | inr released => exact mem_append_right _ released
  case flushed =>
    obtain ⟨done, front, taken, settled⟩ := sound.flushed
    refine ⟨done, front.trans (prefix_append _ _), taken, fun entry member => ?_⟩
    change entry ∈ scope.observed.confirmed ++ (scope.observed.unconfirmed ++ scope.unknownIn batch)
    rw [← append_assoc]
    exact mem_append_left _ (settled member)
  case lost => exact fun _ => ⟨closed, quiet⟩
  case stopped => exact fun _ => closed
  case quiet => exact fun _ => quiet
  case late =>
    intro _
    apply sound.late
    rw [acking]
    trivial
  case placed => exact fun early => absurd late early
  case closed => nofun

end

section Close

variable [DecidableEq Key]

theorem mem_unsettled : entry ∈ scope.unsettled ↔
      entry ∈ scope.observed.admitted ∧ entry ∉ scope.observed.settled := by
  unfold BatchScope.unsettled Observed.settled
  rw [mem_filter, decide_eq_true_eq]

section

variable (sound : BatchSound scope)
include sound

theorem BatchSound.settled_append_unsettled :
    (scope.observed.settled ++ scope.unsettled).Perm scope.observed.admitted := by
  have entries : scope.observed.admitted.Nodup := List.Nodup.of_map _ sound.admitted_distinct
  have distinct : (scope.observed.settled ++ scope.unsettled).Nodup := by
    rw [nodup_append]
    refine ⟨sound.once, entries.filter _, fun entry settled other unsettled same => ?_⟩
    rw [← same] at unsettled
    exact (mem_unsettled.mp unsettled).2 settled
  rw [perm_ext_iff_of_nodup distinct entries]
  intro entry
  rw [mem_append, mem_unsettled]
  by_cases settled : entry ∈ scope.observed.settled
  case pos => exact ⟨fun _ => sound.within settled, fun _ => .inl settled⟩
  case neg =>
    exact ⟨fun either => either.elim (absurd · settled) (·.1), fun member => .inr ⟨member, settled⟩⟩

theorem BatchSound.pending_eq :
    (scope.accepted : Int) - scope.confirmed - scope.unconfirmed = scope.unsettled.length := by
  have total := sound.settled_append_unsettled.length_eq
  rw [length_append, sound.settled_length, ← sound.accepted] at total
  omega

theorem BatchSound.finishClose
    (releasing : scope.closing = .releasing) : BatchSound scope.finishClose := by
  have all : scope.finishClose.observed.settled.Perm scope.observed.admitted := by
    change (scope.observed.confirmed ++ (scope.observed.unconfirmed ++ scope.unsettled)).Perm
      scope.observed.admitted
    rw [← append_assoc]
    exact sound.settled_append_unsettled
  have late : scope.closing.Late := by
    rw [releasing]
    trivial
  exact { sound with
    unconfirmed := by
      change scope.unconfirmed + (max 0 ((scope.accepted : Int) - scope.confirmed -
        scope.unconfirmed)).toNat = (scope.observed.unconfirmed ++ scope.unsettled).length
      rw [sound.pending_eq, length_append, sound.unconfirmed]
      congr 1
    once := all.nodup_iff.mpr (List.Nodup.of_map _ sound.admitted_distinct)
    within := all.subset
    flushed := ⟨scope.observed.admitted, prefix_rfl, sound.accepted, all.symm.subset⟩
    stopped := fun _ => sound.stopped (by rw [releasing]; nofun)
    quiet := fun _ => sound.quiet late.quiet
    late := fun _ => sound.late late
    placed := fun early => absurd trivial early
    closed := fun _ => all.symm.subset }

theorem BatchSound.of_closeStep (step : CloseStep scope after) : BatchSound after := by
  cases step with
  | asked first =>
    have stopped : BatchSound scope.stopAccepting := sound.of_flags rfl nofun
    have early : ¬scope.closing.Late := by
      rw [first]
      exact id
    exact { stopped with
      stopped := fun _ => rfl
      quiet := fun quiet => absurd quiet id
      late := fun late => absurd late id
      placed := fun _ => stopped.placed early
      closed := nofun }
  | askedAgain => exact sound.of_flags rfl nofun
  | admissionsDone waiting done =>
    have early : ¬scope.closing.Late := by
      rw [waiting]
      exact id
    exact { sound with
      stopped := fun _ => sound.stopped (by rw [waiting]; nofun)
      quiet := fun _ => done
      late := fun late => absurd late id
      placed := fun _ => sound.placed early
      closed := nofun }
  | stopRequested draining => exact sound.of_flags rfl id
  | drained draining done =>
    exact { sound with
      stopped := fun _ => sound.stopped (by rw [draining]; nofun)
      quiet := fun _ => sound.quiet (by rw [draining]; trivial)
      late := fun _ => by
        cases done with
        | inl absent => exact absent ▸ trivial
        | inr finished =>
          obtain ⟨failed, finished⟩ := finished
          exact finished ▸ trivial
      placed := fun early => absurd trivial early
      closed := nofun }
  | read releasing => exact sound.closing trivial (by rw [releasing]; trivial) nofun
  | released acking => exact sound.release acking
  | @retried batch queue acking released =>
    have late : scope.closing.Late := by
      rw [acking]
      trivial
    exact { sound with placed := fun early => absurd late early }
  | finished releasing => exact sound.finishClose releasing
  | readFailed releasing =>
    exact sound.of_backendFailed.closing trivial
      (show scope.closing.Late by rw [releasing]; trivial) nofun
  | ackFailed acking released =>
    exact sound.of_backendFailed.closing trivial
      (show scope.closing.Late by rw [acking]; trivial) nofun

end

theorem batchSound_of_reachable (reachable : (batchMachine Key batchSize).Reachable scope) :
    BatchSound scope := by
  apply reachable.invariant
  · intro initial isInitial
    obtain ⟨scheduled, same⟩ := isInitial
    rw [same]
    exact batchSound_initial
  · intro before label after _ sound step
    cases step with
    | admission step => exact BatchSound.of_admissionStep sound step
    | writer step => exact BatchSound.of_writerStep sound step
    | close step => exact BatchSound.of_closeStep sound step

/-- At every moment the counters add up to what has become of the admitted entries: each is
settled at most once, those that a flush has waited for are, the sink gets them in the order of
their admission and each only once, and after a close none is left. -/
theorem batch_writes_are_accounted (reachable : (batchMachine Key batchSize).Reachable scope) :
    (scope.status.accepted = scope.observed.admitted.length ∧
      scope.status.confirmed = scope.observed.confirmed.length ∧
      scope.status.unconfirmed = scope.observed.unconfirmed.length ∧
      scope.status.pending = scope.unsettled.length ∧ (scope.status.accepted : Int) =
        scope.status.confirmed + scope.status.unconfirmed + scope.status.pending) ∧
    ((scope.observed.admitted.map (·.id)).Nodup ∧ scope.observed.settled.Nodup ∧
      scope.observed.settled ⊆ scope.observed.admitted) ∧
    (∀ entry ∈ scope.observed.admitted.take scope.settled, entry ∈ scope.observed.settled) ∧
    scope.observed.handed <+: scope.observed.admitted ∧ (scope.closing = .closed →
      scope.status.pending = 0 ∧ scope.observed.settled.Perm scope.observed.admitted) := by
  have sound := batchSound_of_reachable reachable
  refine ⟨⟨sound.accepted, sound.confirmed, sound.unconfirmed, sound.pending_eq, ?_⟩,
    ⟨sound.admitted_distinct, sound.once, sound.within⟩, ?_, sound.order, fun closed => ?_⟩
  · change (scope.accepted : Int) = scope.confirmed + scope.unconfirmed +
      (scope.accepted - scope.confirmed - scope.unconfirmed)
    omega
  · obtain ⟨done, front, taken, settled⟩ := sound.flushed
    rw [taken, ← prefix_iff_eq_take.mp front]
    exact settled
  · have none : scope.unsettled = [] := by
      rw [eq_nil_iff_forall_not_mem]
      intro entry member
      exact (mem_unsettled.mp member).2 (sound.closed closed (mem_unsettled.mp member).1)
    have all := sound.settled_append_unsettled
    rw [none, append_nil] at all
    refine ⟨?_, all⟩
    change (scope.accepted : Int) - scope.confirmed - scope.unconfirmed = 0
    rw [sound.pending_eq, none]
    rfl

end Close

/-- Of two entries the first one's write fails. -/
theorem failed_entry_is_accounted :
    ∃ scope : BatchScope Nat, scope.observed.handed = [⟨7, 0, none⟩, ⟨8, 1, none⟩] ∧
      scope.status.unconfirmed = 1 ∧ scope.status.pending = 0 ∧
      scope.observed.settled.Perm scope.observed.admitted := by
  have start : (batchMachine Nat 1).initial {} := ⟨false, rfl⟩
  have fresh : FreshEntry ({} : BatchScope Nat) ⟨7, 0, none⟩ := nofun
  have reachable := reachable_batchStep (.of_initial start) (.admission (.began rfl rfl fresh))
  have reachable := reachable_batchStep reachable (.admission (.published rfl))
  have reachable := reachable_batchStep reachable (.admission (.admitted rfl))
  have reachable := reachable_batchStep reachable
    (.admission (@AdmissionStep.began Nat _ ⟨8, 1, none⟩ rfl rfl (by unfold FreshEntry; decide)))
  have reachable := reachable_batchStep reachable (.admission (.published rfl))
  have reachable := reachable_batchStep reachable (.admission (.admitted rfl))
  have reachable := reachable_batchStep reachable (.writer (.asked rfl rfl nofun nofun))
  have reachable := reachable_batchStep reachable
    (.writer (@WriterStep.handed Nat _ _ _ [⟨7, 0, none⟩] rfl ⟨_, rfl⟩ (by decide) rfl))
  have reachable := reachable_batchStep reachable
    (.writer (@WriterStep.writeFailed Nat _ _ _ "WRITE_FAILED" rfl))
  have reachable := reachable_batchStep reachable (.writer (.acked rfl))
  have reachable := reachable_batchStep reachable (.writer (.asked rfl rfl nofun nofun))
  have reachable := reachable_batchStep reachable
    (.writer (@WriterStep.handed Nat _ _ _ [⟨8, 1, none⟩] rfl ⟨_, rfl⟩ (by decide) rfl))
  have reachable := reachable_batchStep reachable (.writer (.confirmed rfl))
  have reachable := reachable_batchStep reachable (.writer (.acked rfl))
  have reachable := reachable_batchStep reachable (.close (.asked rfl))
  have reachable := reachable_batchStep reachable (.writer (.stopped rfl (.inr ⟨rfl, rfl⟩)))
  have reachable := reachable_batchStep reachable (.close (.admissionsDone rfl rfl))
  have reachable := reachable_batchStep reachable (.close (.drained rfl (.inr ⟨false, rfl⟩)))
  have reachable := reachable_batchStep reachable
    (.close (.finished rfl nil_prefix (.inl rfl)))
  exact ⟨_, rfl, rfl, (batch_writes_are_accounted reachable).2.2.2.2 rfl⟩

end Linktools.Cache
