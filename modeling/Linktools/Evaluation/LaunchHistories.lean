import Linktools.Evaluation.LaunchControl
import Linktools.Library.Machine

namespace Linktools.Evaluation

open Linktools.Core Library List

def Change.Shows (record : EvaluationRecord) : Change → Prop
  | .registerLaunchIntent intent capacity =>
    (∃ current ∈ record.intentOf intent.slotId, current.submission = intent.submission ∧
      current.trial = intent.trial ∧ current.scorerSlotId = intent.scorerSlotId) ∨
    record.intentOf intent.slotId = none ∧
      ((∃ item ∈ record.dispositions, item.slotId = intent.slotId ∧ item.disposition.Terminal) ∨
        record.gate ≠ .open ∨ capacity ≤ record.active intent.scorerSlotId.isNone)
  | .appendSlotDisposition item =>
    record.dispositionOf item.slotId = some item ∨
    (∃ intent ∈ record.intentOf item.slotId, intent.released = false) ∨
    ∃ current ∈ record.dispositionOf item.slotId, current.disposition.Terminal
  | .closeReservationGate budget =>
    record.gate = .closedCancel ∨ budget = true ∧ record.gate = .closedBudget
  | .settleIntent slotId confirmed released =>
    ∀ item ∈ record.intents, item.slotId = slotId →
      (confirmed = true → item.confirmed = true) ∧ (released = true → item.released = true)
  | .publishTrialEvidence evidence => ∃ item ∈ record.evidence, item.trial = evidence.trial

structure Controlled (capacity : Bool → Nat) (record : EvaluationRecord) : Prop where
  slots : (record.intents.map (·.slotId)).Nodup
  dispositions : (record.dispositions.map (·.slotId)).Nodup
  evidence : (record.evidence.map (·.trial)).Nodup
  within : ∀ target, record.active target ≤ capacity target

def Change.Fits (capacity : Bool → Nat) : Change → Prop
  | .registerLaunchIntent intent bound => bound = capacity intent.scorerSlotId.isNone
  | _ => True

namespace EvaluationRecord

variable {record changed : EvaluationRecord} {now : Time}

theorem register_cases (registered : record.register intent capacity now = .ok changed) :
    changed = record ∧ (Change.registerLaunchIntent intent capacity).Shows record ∨
    record.intentOf intent.slotId = none ∧
      (∀ item ∈ record.dispositions, item.slotId = intent.slotId → ¬item.disposition.Terminal) ∧
      record.gate = .open ∧ record.active intent.scorerSlotId.isNone < capacity ∧
      changed = { record with
        intents := record.intents ++ [intent]
        dispositions := record.dispositions.filter fun item => item.slotId ≠ intent.slotId } := by
  unfold register at registered
  obtain ⟨_, available, rest⟩ := bind_eq_ok.mp registered
  cases found : record.intentOf intent.slotId with
  | some current =>
    rw [found] at rest
    obtain ⟨_, agrees, same⟩ := bind_eq_ok.mp rest
    rw [refuse_eq_ok] at agrees
    push Not at agrees
    exact .inl ⟨(pure_eq_ok.mp same).symm, .inl ⟨current, found, agrees⟩⟩
  | none =>
    rw [found] at rest
    dsimp only at rest
    split at rest
    case isTrue terminal => exact .inl ⟨(pure_eq_ok.mp rest).symm, .inr ⟨found, .inl terminal⟩⟩
    case isFalse retriable =>
      split at rest
      case isTrue shut => exact .inl ⟨(pure_eq_ok.mp rest).symm, .inr ⟨found, .inr shut⟩⟩
      case isFalse room =>
        push Not at retriable
        obtain ⟨launchable, room⟩ := not_or.mp room
        exact .inr ⟨rfl, retriable, not_not.mp launchable, Nat.lt_of_not_le room,
          (pure_eq_ok.mp rest).symm⟩

theorem append_cases (record : EvaluationRecord) (item : EvaluationSlotDisposition) :
    record.append item = record ∧ (Change.appendSlotDisposition item).Shows record ∨
    (∀ current ∈ record.dispositionOf item.slotId, ¬current.disposition.Terminal) ∧
      record.append item = { record with
        dispositions :=
          (record.dispositions.filter fun value => value.slotId ≠ item.slotId) ++ [item] } := by
  unfold append
  split
  case isTrue waits => exact .inl ⟨rfl, .inr (.inl waits)⟩
  case isFalse =>
    split
    case isTrue stays =>
      obtain ⟨current, found, terminal | rfl⟩ := stays
      · exact .inl ⟨rfl, .inr (.inr ⟨current, found, terminal⟩)⟩
      · exact .inl ⟨rfl, .inl found⟩
    case isFalse differs =>
      push Not at differs
      exact .inr ⟨fun current found => (differs current found).1, rfl⟩

theorem closeGate_cases (record : EvaluationRecord) (budget : Bool) :
    record.closeGate budget = record ∧ (Change.closeReservationGate budget).Shows record ∨
    ∃ gate, GateMoves record.gate gate ∧ gate ≠ .open ∧
      (gate = .closedCancel ∨ budget = true ∧ gate = .closedBudget) ∧
      record.closeGate budget = { record with gate } := by
  unfold closeGate
  cases budget with
  | true =>
    cases shut : record.gate with
    | «open» => exact .inr ⟨.closedBudget, .budget, nofun, .inr ⟨rfl, rfl⟩, by simp⟩
    | closedCancel => exact .inl ⟨by simp, .inl shut⟩
    | closedBudget => exact .inl ⟨by simp, .inr ⟨rfl, shut⟩⟩
  | false =>
    cases shut : record.gate with
    | «open» => exact .inr ⟨.closedCancel, .cancel, nofun, .inl rfl, by simp⟩
    | closedCancel => exact .inl ⟨by simp, .inl shut⟩
    | closedBudget => exact .inr ⟨.closedCancel, .cancelAfterBudget, nofun, .inl rfl, by simp⟩

theorem publish_cases {evidence : EvaluationTrialEvidence}
    (published : record.publish evidence now = .ok changed) :
    changed = record ∧ (Change.publishTrialEvidence evidence).Shows record ∨
    evidence.trial ∉ record.evidence.map (·.trial) ∧
      changed = { record with evidence := record.evidence ++ [evidence] } := by
  unfold publish at published
  obtain ⟨_, available, rest⟩ := bind_eq_ok.mp published
  split at rest
  case isTrue shown => exact .inl ⟨(pure_eq_ok.mp rest).symm, shown⟩
  case isFalse fresh =>
    refine .inr ⟨fun member => ?_, (pure_eq_ok.mp rest).symm⟩
    obtain ⟨item, listed, same⟩ := mem_map.mp member
    exact fresh ⟨item, listed, same⟩

theorem settle_grew (record : EvaluationRecord) (slotId : String) (confirmed released : Bool) :
    List.Forall₂ IntentGrew record.intents (record.settle slotId confirmed released).intents := by
  rw [settle, forall₂_map_right_iff, forall₂_same]
  intro item _
  split
  case isTrue => exact ⟨rfl, rfl, rfl, rfl, rfl, fun set => by simp [set], fun set => by simp [set]⟩
  case isFalse => exact .refl

end EvaluationRecord

theorem slotIds_of_grew (grew : List.Forall₂ IntentGrew intents later) :
    later.map (·.slotId) = intents.map (·.slotId) :=
  forall₂_map_key (fun _ _ head => head.slotId) grew

theorem IntentGrew.counted (grew : IntentGrew intent later)
    (counted : (!later.released && later.scorerSlotId.isNone == target) = true) :
    (!intent.released && intent.scorerSlotId.isNone == target) = true := by
  rw [grew.scorerSlotId] at counted
  cases released : intent.released with
  | true => simp [grew.released released] at counted
  | false =>
    simp only [Bool.and_eq_true] at counted
    simp [counted.2]

theorem active_of_grew {record changed : EvaluationRecord} (target : Bool)
    (grew : List.Forall₂ IntentGrew record.intents changed.intents) :
    changed.active target ≤ record.active target :=
  countP_le_of_forall₂ (grew.imp fun _ _ head => head.counted)

structure Kept (capacity : Bool → Nat) (change : Change)
    (record changed : EvaluationRecord) : Prop where
  controlled : Controlled capacity changed
  evolves : Evolves record changed
  shows : change.Shows changed

variable {capacity : Bool → Nat} {record changed : EvaluationRecord} {now : Time} {change : Change}

theorem Kept.unchanged (controlled : Controlled capacity record) (shown : change.Shows record) :
    Kept capacity change record record :=
  ⟨controlled, .refl, shown⟩

theorem register_kept (fits : (Change.registerLaunchIntent intent bound).Fits capacity)
    (controlled : Controlled capacity record)
    (registered : record.register intent bound now = .ok changed) :
    Kept capacity (.registerLaunchIntent intent bound) record changed := by
  rcases EvaluationRecord.register_cases registered with
    ⟨rfl, shown⟩ | ⟨missing, retriable, opened, room, rfl⟩
  · exact .unchanged controlled shown
  have fresh : intent.slotId ∉ record.intents.map (·.slotId) := rowAt_eq_none_iff.mp missing
  refine ⟨⟨?_, ?_, controlled.evidence, fun target => ?_⟩, ⟨rfl, ?_, ?_, prefix_rfl, .refl,
    fun shut => absurd opened shut, ?_⟩, .inl ⟨intent, ?_, rfl, rfl, rfl⟩⟩
  · exact nodup_map_append controlled.slots fun item member same =>
      fresh (mem_map.mpr ⟨item, member, same⟩)
  · exact controlled.dispositions.sublist (filter_sublist.map _)
  · have counts : countP
        (fun item : EvaluationLaunchIntent => !item.released && item.scorerSlotId.isNone == target)
        (record.intents ++ [intent]) ≤ capacity target := by
      rw [countP_append, countP_singleton]
      have held := controlled.within target
      split
      case isTrue counted =>
        simp only [Bool.and_eq_true, beq_iff_eq] at counted
        rw [← counted.2, ← (fits : bound = capacity intent.scorerSlotId.isNone)]
        rw [← counted.2] at held
        exact room
      case isFalse => exact held
    exact counts
  · exact ⟨record.intents, [intent], rfl, forall₂_intentGrew_refl⟩
  · intro item member terminal
    refine mem_filter.mpr ⟨member, decide_eq_true fun same => ?_⟩
    exact retriable item member same terminal
  · intro item member terminal later
    rw [map_append, mem_append] at later
    rcases later with before | added
    · exact before
    · exact absurd terminal (retriable item member (mem_singleton.mp added))
  · rw [EvaluationRecord.intentOf, rowAt_append, rowAt_eq_none_iff.mpr fresh]
    simp [rowAt_cons]

theorem append_kept (item : EvaluationSlotDisposition) (controlled : Controlled capacity record) :
    Kept capacity (.appendSlotDisposition item) record (record.append item) := by
  rcases record.append_cases item with ⟨same, shown⟩ | ⟨retriable, changes⟩
  · rw [same]
    exact .unchanged controlled shown
  rw [changes]
  have absent : item.slotId ∉
      (record.dispositions.filter fun value => value.slotId ≠ item.slotId).map (·.slotId) := by
    intro member
    obtain ⟨value, listed, same⟩ := mem_map.mp member
    exact of_decide_eq_true (mem_filter.mp listed).2 same
  refine ⟨⟨controlled.slots, ?_, controlled.evidence, controlled.within⟩, ⟨rfl,
    ⟨record.intents, [], (append_nil _).symm, forall₂_intentGrew_refl⟩, ?_,
    prefix_rfl, .refl, fun _ => rfl, fun _ _ _ later => later⟩, .inl ?_⟩
  · exact nodup_map_append (controlled.dispositions.sublist (filter_sublist.map _))
      fun value member same => absent (mem_map.mpr ⟨value, member, same⟩)
  · intro value member terminal
    refine mem_append_left _ (mem_filter.mpr ⟨member, decide_eq_true fun same => ?_⟩)
    refine retriable value ?_ terminal
    exact (rowAt_eq_some_iff controlled.dispositions).mpr ⟨member, same⟩
  · rw [EvaluationRecord.dispositionOf, rowAt_append, rowAt_eq_none_iff.mpr absent]
    simp [rowAt_cons]

theorem closeGate_kept (budget : Bool) (controlled : Controlled capacity record) :
    Kept capacity (.closeReservationGate budget) record (record.closeGate budget) := by
  rcases record.closeGate_cases budget with ⟨same, shown⟩ | ⟨gate, moves, shut, shown, changes⟩
  · rw [same]
    exact .unchanged controlled shown
  · rw [changes]
    exact ⟨⟨controlled.slots, controlled.dispositions, controlled.evidence, controlled.within⟩,
      ⟨rfl, ⟨record.intents, [], (append_nil _).symm, forall₂_intentGrew_refl⟩,
        fun _ member _ => member, prefix_rfl, moves, fun _ => rfl,
        fun _ _ _ later => later⟩, shown⟩

theorem settle_kept (slotId : String) (confirmed released : Bool)
    (controlled : Controlled capacity record) :
    Kept capacity (.settleIntent slotId confirmed released) record
      (record.settle slotId confirmed released) := by
  have grew := record.settle_grew slotId confirmed released
  have slots := slotIds_of_grew grew
  refine ⟨⟨?_, controlled.dispositions, controlled.evidence, fun target =>
    le_trans (active_of_grew target grew) (controlled.within target)⟩, ⟨rfl,
    ⟨_, [], (append_nil _).symm, grew⟩, fun _ member _ => member, prefix_rfl, .refl,
    fun _ => slots, fun _ _ _ later => ?_⟩, ?_⟩
  · rw [slots]
    exact controlled.slots
  · rwa [slots] at later
  · intro item member same
    obtain ⟨intent, _, rfl⟩ := mem_map.mp member
    by_cases here : intent.slotId = slotId
    case pos =>
      rw [if_pos here]
      exact ⟨fun set => by simp [set], fun set => by simp [set]⟩
    case neg =>
      rw [if_neg here] at same
      exact absurd same here

theorem publish_kept (controlled : Controlled capacity record)
    (published : record.publish evidence now = .ok changed) :
    Kept capacity (.publishTrialEvidence evidence) record changed := by
  rcases EvaluationRecord.publish_cases published with ⟨rfl, shown⟩ | ⟨fresh, rfl⟩
  · exact .unchanged controlled shown
  refine ⟨⟨controlled.slots, controlled.dispositions, ?_, controlled.within⟩, ⟨rfl,
    ⟨record.intents, [], (append_nil _).symm, forall₂_intentGrew_refl⟩,
    fun _ member _ => member, prefix_append _ _, .refl, fun _ => rfl,
    fun _ _ _ later => later⟩, evidence, ?_, rfl⟩
  · exact nodup_map_append controlled.evidence fun item member same =>
      fresh (mem_map.mpr ⟨item, member, same⟩)
  · exact mem_append_right _ (mem_singleton_self evidence)

theorem apply_kept (fits : change.Fits capacity) (controlled : Controlled capacity record)
    (applied : change.apply now record = .ok changed) : Kept capacity change record changed := by
  cases change with
  | registerLaunchIntent => exact register_kept fits controlled applied
  | appendSlotDisposition item =>
    cases applied
    exact append_kept item controlled
  | closeReservationGate budget =>
    cases applied
    exact closeGate_kept budget controlled
  | settleIntent slotId confirmed released =>
    cases applied
    exact settle_kept slotId confirmed released controlled
  | publishTrialEvidence evidence => exact publish_kept controlled applied

theorem Kept.stamp (kept : Kept capacity change record changed) (revision : Nat)
    (updatedAt : Time) : Kept capacity change record { changed with revision, updatedAt } := by
  obtain ⟨controlled, evolves, shown⟩ := kept
  refine ⟨⟨controlled.slots, controlled.dispositions, controlled.evidence, controlled.within⟩,
    ⟨evolves.manifest, evolves.intents, evolves.terminal, evolves.evidence, evolves.gate,
      evolves.closed, evolves.settled⟩, ?_⟩
  cases change <;> exact shown

theorem update_kept (fits : change.Fits capacity) (controlled : Controlled capacity record)
    (updated : change.update now record = .ok changed) : Kept capacity change record changed := by
  unfold Change.update at updated
  obtain ⟨proposed, applied, rest⟩ := bind_eq_ok.mp updated
  have kept := apply_kept fits controlled applied
  split at rest
  case isTrue same =>
    rw [← pure_eq_ok.mp rest]
    rwa [same] at kept
  case isFalse =>
    obtain ⟨_, _, stamped⟩ := bind_eq_ok.mp rest
    rw [← pure_eq_ok.mp stamped]
    exact kept.stamp _ _

inductive CommitOutcome
  | committed
  | unknown (applied : Bool) (error : Raised)

inductive UpdatePhase
  | writing
  | readingBack (error : Raised)
  | done (answer : Except Raised EvaluationRecord)

structure UpdateCall where
  change : Change
  phase : UpdatePhase := .writing

structure LaunchState where
  stored : Option EvaluationRecord
  tombstone : Bool := false
  calls : List UpdateCall := []

def LaunchState.write (state : LaunchState) (change : Change) (now : Time) :
    Except Raised EvaluationRecord := do
  let record ← orRaise state.stored (.ai .storageNotFound)
  change.update now record

/-- What the transaction leaves stored, and what the call knows then. -/
def LaunchState.commit (state : LaunchState) (change : Change) (now : Time) :
    CommitOutcome → Option EvaluationRecord × UpdatePhase
  | .committed =>
    match state.write change now with
    | .ok changed => (some changed, .done (.ok changed))
    | .error error => (state.stored, .readingBack error)
  | .unknown applied error =>
    match state.write change now with
    | .ok changed => (if applied then some changed else state.stored, .readingBack error)
    | .error raised => (state.stored, .readingBack raised)

def LaunchState.readBack (state : LaunchState) (change : Change) (now : Time)
    (error : Raised) : Except Raised EvaluationRecord :=
  match state.stored with
  | none => .error (if state.tombstone then .ai .evaluationEvidenceUnavailable else error)
  | some current => do
    let proposed ← change.apply now current
    if proposed = current then return current else .error error

inductive LaunchLabel
  | call (change : Change)
  | commit (index : Nat) (now : Time) (outcome : CommitOutcome)
  | readBack (index : Nat) (now : Time)

inductive LaunchStep (capacity : Bool → Nat) : LaunchState → LaunchLabel → LaunchState → Prop
  | call {state : LaunchState} {change : Change} (fits : change.Fits capacity) :
      LaunchStep capacity state (.call change) { state with calls := state.calls ++ [{ change }] }
  | commit {state : LaunchState} {index : Nat} {now : Time} {outcome : CommitOutcome}
      {change : Change} (waiting : state.calls[index]? = some ⟨change, .writing⟩) :
      LaunchStep capacity state (.commit index now outcome)
        { state with
          stored := (state.commit change now outcome).1
          calls := state.calls.set index ⟨change, (state.commit change now outcome).2⟩ }
  | readBack {state : LaunchState} {index : Nat} {now : Time} {change : Change} {error : Raised}
      (waiting : state.calls[index]? = some ⟨change, .readingBack error⟩) :
      LaunchStep capacity state (.readBack index now)
        { state with
          calls := state.calls.set index ⟨change, .done (state.readBack change now error)⟩ }

structure Reserved (record : EvaluationRecord) : Prop where
  intents : record.intents = []
  dispositions : record.dispositions = []
  evidence : record.evidence = []
  gate : record.gate = .open

def launchMachine (capacity : Bool → Nat) : Machine LaunchState LaunchLabel where
  initial state := (∃ record, state.stored = some record ∧ Reserved record) ∧ state.calls = []
  step := LaunchStep capacity

variable {state last : LaunchState} {labels : List LaunchLabel}

theorem Reserved.controlled (reserved : Reserved record) : Controlled capacity record := by
  obtain ⟨intents, dispositions, evidence, _⟩ := reserved
  refine ⟨?_, ?_, ?_, fun target => ?_⟩
  · rw [intents]
    exact nodup_nil
  · rw [dispositions]
    exact nodup_nil
  · rw [evidence]
    exact nodup_nil
  · rw [EvaluationRecord.active, intents]
    exact Nat.zero_le _

theorem commit_cases (present : state.stored = some record) (outcome : CommitOutcome) :
    (state.commit change now outcome).1 = some record ∧
      (∀ answer, (state.commit change now outcome).2 ≠ .done (.ok answer)) ∨
    ∃ changed, change.update now record = .ok changed ∧
      (state.commit change now outcome).1 = some changed ∧
      ∀ answer, (state.commit change now outcome).2 = .done (.ok answer) → answer = changed := by
  have body : state.write change now = change.update now record := by
    rw [LaunchState.write, present]
    rfl
  cases updated : change.update now record with
  | error raised =>
    refine .inl ?_
    cases outcome with
    | committed =>
      simp only [LaunchState.commit, body, updated]
      exact ⟨present, fun _ same => by cases same⟩
    | unknown =>
      simp only [LaunchState.commit, body, updated]
      exact ⟨present, fun _ same => by cases same⟩
  | ok changed =>
    cases outcome with
    | committed =>
      simp only [LaunchState.commit, body, updated]
      exact .inr ⟨changed, rfl, rfl, fun _ same => (Except.ok.inj (UpdatePhase.done.inj same)).symm⟩
    | unknown applied error =>
      simp only [LaunchState.commit, body, updated]
      cases applied with
      | true => exact .inr ⟨changed, rfl, rfl, fun _ same => by cases same⟩
      | false => exact .inl ⟨present, fun _ same => by cases same⟩

theorem readBack_ok (answered : state.readBack change now error = .ok answer) :
    state.stored = some answer ∧ change.apply now answer = .ok answer := by
  unfold LaunchState.readBack at answered
  cases present : state.stored with
  | none =>
    rw [present] at answered
    cases answered
  | some current =>
    rw [present] at answered
    obtain ⟨proposed, applied, rest⟩ := bind_eq_ok.mp answered
    split at rest
    case isTrue same =>
      cases pure_eq_ok.mp rest
      exact ⟨rfl, by rw [applied, same]⟩
    case isFalse => cases rest

/-- The record is controlled, and every answer shows its change and still stands. -/
structure LaunchKept (capacity : Bool → Nat) (state : LaunchState) (record : EvaluationRecord) :
    Prop where
  stored : state.stored = some record
  controlled : Controlled capacity record
  fits : ∀ call ∈ state.calls, call.change.Fits capacity
  answers : ∀ call ∈ state.calls, ∀ answer, call.phase = .done (.ok answer) →
    call.change.Shows answer ∧ Evolves answer record

theorem step_kept (kept : LaunchKept capacity state record)
    (step : LaunchStep capacity state label last) :
    ∃ later, LaunchKept capacity last later ∧ Evolves record later := by
  obtain ⟨stored, controlled, fits, answers⟩ := kept
  cases step with
  | call suits =>
    refine ⟨record, ⟨stored, controlled, fun call member => ?_,
      fun call member answer done => ?_⟩, .refl⟩
    · cases mem_append.mp member with
      | inl earlier => exact fits call earlier
      | inr newer =>
        cases mem_singleton.mp newer
        exact suits
    · cases mem_append.mp member with
      | inl earlier => exact answers call earlier answer done
      | inr newer =>
        cases mem_singleton.mp newer
        cases done
  | @commit index now outcome change waiting =>
    have suits := fits _ (mem_of_getElem? waiting)
    have suited : ∀ call ∈ state.calls.set index
        ⟨change, (state.commit change now outcome).2⟩, call.change.Fits capacity := by
      intro call member
      cases mem_or_eq_of_mem_set member with
      | inl earlier => exact fits call earlier
      | inr newer =>
        rw [newer]
        exact suits
    rcases commit_cases stored outcome with ⟨same, silent⟩ | ⟨changed, updated, same, answered⟩
    · refine ⟨record, ⟨same, controlled, suited, fun call member answer done => ?_⟩, .refl⟩
      cases mem_or_eq_of_mem_set member with
      | inl earlier => exact answers call earlier answer done
      | inr newer =>
        rw [newer] at done
        exact absurd done (silent answer)
    · have left := update_kept suits controlled updated
      refine ⟨changed, ⟨same, left.controlled, suited, fun call member answer done => ?_⟩,
        left.evolves⟩
      cases mem_or_eq_of_mem_set member with
      | inl earlier =>
        obtain ⟨shown, stands⟩ := answers call earlier answer done
        exact ⟨shown, stands.trans left.evolves⟩
      | inr newer =>
        rw [newer] at done ⊢
        rw [answered answer done]
        exact ⟨left.shows, .refl⟩
  | @readBack index now change error waiting =>
    have suits := fits _ (mem_of_getElem? waiting)
    refine ⟨record, ⟨stored, controlled, fun call member => ?_,
      fun call member answer done => ?_⟩, .refl⟩
    · cases mem_or_eq_of_mem_set member with
      | inl earlier => exact fits call earlier
      | inr newer =>
        rw [newer]
        exact suits
    · cases mem_or_eq_of_mem_set member with
      | inl earlier => exact answers call earlier answer done
      | inr newer =>
        rw [newer] at done ⊢
        obtain ⟨current, applied⟩ := readBack_ok (UpdatePhase.done.inj done)
        cases stored.symm.trans current
        exact ⟨(apply_kept suits controlled applied).shows, .refl⟩

theorem run_kept (kept : LaunchKept capacity state record)
    (run : Machine.Run (launchMachine capacity) state labels last) :
    ∃ later, LaunchKept capacity last later ∧ Evolves record later := by
  induction run generalizing record with
  | nil => exact ⟨record, kept, .refl⟩
  | cons step _ ih =>
    obtain ⟨middle, keptMiddle, evolves⟩ := step_kept kept step
    obtain ⟨later, keptLater, further⟩ := ih keptMiddle
    exact ⟨later, keptLater, evolves.trans further⟩

theorem reachable_kept (reachable : (launchMachine capacity).Reachable state) :
    ∃ record, LaunchKept capacity state record := by
  obtain ⟨start, labels, ⟨⟨record, stored, reserved⟩, calls⟩, run⟩ := reachable
  have kept : LaunchKept capacity start record := by
    refine ⟨stored, reserved.controlled, ?_, ?_⟩
    · rw [calls]
      exact fun _ => nofun
    · rw [calls]
      exact fun _ => nofun
  obtain ⟨later, keptLater, _⟩ := run_kept kept run
  exact ⟨later, keptLater⟩

/-- The control facts of an experiment stay within their bounds and only grow, and the answer
of an update shows its change, also when the outcome of its commit was unknown. -/
theorem launch_control_is_safe (capacity : Bool → Nat) (state : LaunchState)
    (reachable : (launchMachine capacity).Reachable state) :
    ∃ record, state.stored = some record ∧ Controlled capacity record ∧
      (∀ call ∈ state.calls, ∀ answer, call.phase = .done (.ok answer) →
        call.change.Shows answer ∧ Evolves answer record) ∧
      ∀ labels last, Machine.Run (launchMachine capacity) state labels last →
        ∃ later, last.stored = some later ∧ Controlled capacity later ∧ Evolves record later := by
  obtain ⟨record, kept⟩ := reachable_kept reachable
  refine ⟨record, kept.stored, kept.controlled, kept.answers, fun labels last run => ?_⟩
  obtain ⟨later, keptLater, evolves⟩ := run_kept kept run
  exact ⟨later, keptLater.stored, keptLater.controlled, evolves⟩

def sampleIntent : EvaluationLaunchIntent where
  slotId := "target:a"
  trial := ⟨"experiment", "a"⟩
  scorerSlotId := none
  submission := "graph"
  deadlineAt := none

def sampleReserved : EvaluationRecord where
  manifest := {
    experimentId := "experiment"
    kind := .experiment
    sourceExperimentId := none
    dataset := ⟨"dataset", 1⟩
    candidates := []
    scorers := []
    trials := ["a"]
    sourceTrials := []
    principalId := "principal" }
  manifestDigest := "manifest"
  requestDigest := "request"
  idempotencyKeyDigest := "key"
  gate := .open
  revision := 1
  createdAt := 0
  updatedAt := 0
  live _ _ := nofun

def sampleRegistered : EvaluationRecord :=
  { sampleReserved with intents := [sampleIntent], revision := 2, updatedAt := 3 }

/-- A registration whose commit was reported as unknown, and found by its read-back. -/
def sampleAnswered : LaunchState where
  stored := some sampleRegistered
  calls := [⟨.registerLaunchIntent sampleIntent 1, .done (.ok sampleRegistered)⟩]

theorem unknown_registration_is_found :
    ∃ record, sampleAnswered.stored = some record ∧ Controlled (fun _ => 1) record ∧
      (Change.registerLaunchIntent sampleIntent 1).Shows sampleRegistered ∧
      Evolves sampleRegistered record := by
  have run : Machine.Run (launchMachine fun _ => 1) { stored := some sampleReserved }
      [.call (.registerLaunchIntent sampleIntent 1), .commit 0 3 (.unknown true .conflict),
        .readBack 0 4] sampleAnswered := by
    refine .cons (.call rfl) (.cons (.commit rfl) (.cons (.readBack rfl) ?_))
    exact .nil sampleAnswered
  obtain ⟨record, stored, controlled, answers, _⟩ := launch_control_is_safe (fun _ => 1)
    sampleAnswered ⟨_, _, ⟨⟨sampleReserved, rfl, rfl, rfl, rfl, rfl⟩, rfl⟩, run⟩
  obtain ⟨shown, stands⟩ := answers _ mem_cons_self sampleRegistered rfl
  exact ⟨record, stored, controlled, shown, stands⟩

end Linktools.Evaluation
