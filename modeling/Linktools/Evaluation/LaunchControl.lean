import Linktools.Core.Value
import Linktools.Library.Checked
import Linktools.Library.Keyed

namespace Linktools.Evaluation

open Linktools.Core Library

inductive ManifestKind
  | experiment
  | scoreOnly
deriving DecidableEq

structure DatasetRef where
  id : String
  revision : Int
deriving DecidableEq

structure TargetTrialRef where
  targetExperimentId : String
  trialId : String
deriving DecidableEq

/-- A candidate, whose graph target keeps its template until its content is deleted. -/
structure CandidateContract where
  slotId : String
  graphTemplate : Option (Option String)
deriving DecidableEq

/-- `scorers` and `trials` by their names. -/
structure EvaluationManifest where
  experimentId : String
  kind : ManifestKind
  sourceExperimentId : Option String
  dataset : DatasetRef
  candidates : List CandidateContract
  scorers : List String
  trials : List String
  sourceTrials : List TargetTrialRef
  principalId : String
deriving DecidableEq

structure EvidenceRef where
  evidenceId : String
  digest : String
deriving DecidableEq

inductive ScoreValue
  | number (value : Rat)
  | notApplicable (reason : String)
deriving DecidableEq

structure ScoreBundle where
  dimensions : List (String × ScoreValue)
  rationale : Option String := none
  evidenceIds : List String := []
  diagnostics : List String := []
deriving DecidableEq

structure ScoreAttemptView where
  trial : TargetTrialRef
  scorerSlotId : String
  score : Option ScoreBundle
  evidenceRef : Option EvidenceRef
  reason : Option String
deriving DecidableEq

inductive DispositionKind
  | permanentUnavailable
  | permanentInvalid
  | cancelled
  | recoverableBlocked
deriving DecidableEq

structure SlotDispositionView where
  kind : DispositionKind
  reasonCode : String
  createdAt : Time
deriving DecidableEq

def SlotDispositionView.Terminal (view : SlotDispositionView) : Prop :=
  view.kind ≠ .recoverableBlocked

instance (view : SlotDispositionView) : Decidable view.Terminal := by
  unfold SlotDispositionView.Terminal
  infer_instance

structure EvaluationLaunchIntent where
  slotId : String
  trial : TargetTrialRef
  scorerSlotId : Option String
  submission : String
  deadlineAt : Option Time
  confirmed : Bool := false
  released : Bool := false
deriving DecidableEq

structure EvaluationTrialEvidence where
  trial : TargetTrialRef
  evidenceRef : EvidenceRef
deriving DecidableEq

structure EvaluationSlotDisposition where
  slotId : String
  disposition : SlotDispositionView
deriving DecidableEq

structure EvaluationHumanDecision where
  slotId : String
  decisionId : String
  score : ScoreBundle
deriving DecidableEq

inductive ReservationGate
  | «open»
  | closedCancel
  | closedBudget
deriving DecidableEq

structure EvaluationRecord where
  manifest : EvaluationManifest
  manifestDigest : String
  requestDigest : String
  idempotencyKeyDigest : String
  gate : ReservationGate
  revision : Nat
  createdAt : Time
  updatedAt : Time
  intents : List EvaluationLaunchIntent := []
  evidence : List EvaluationTrialEvidence := []
  scores : List ScoreAttemptView := []
  dispositions : List EvaluationSlotDisposition := []
  humanDecisions : List EvaluationHumanDecision := []
  contentExpiresAt : Option Time := none
  metadataExpiresAt : Option Time := none
  contentDeletedAt : Option Time := none
  ownedInputCaptures : List String := []
  live : contentDeletedAt = none →
    ∀ candidate ∈ manifest.candidates, candidate.graphTemplate ≠ some none
deriving DecidableEq

namespace EvaluationRecord

variable (record : EvaluationRecord)

def experimentId : String := record.manifest.experimentId

def expired (deadline : Option Time) (now : Time) : Prop := ∃ expires ∈ deadline, expires ≤ now

instance (deadline : Option Time) (now : Time) : Decidable (expired deadline now) := by
  unfold expired
  infer_instance

/-- `_require_content`. -/
def requireContent (now : Time) : Except Raised Unit :=
  refuse (record.contentDeletedAt ≠ none ∨ expired record.contentExpiresAt now ∨
    expired record.metadataExpiresAt now) (.ai .evaluationEvidenceUnavailable)

end EvaluationRecord

inductive Change
  | registerLaunchIntent (intent : EvaluationLaunchIntent) (capacity : Nat)
  | appendSlotDisposition (item : EvaluationSlotDisposition)
  | closeReservationGate (budget : Bool)
  | settleIntent (slotId : String) (confirmed released : Bool)
  | publishTrialEvidence (evidence : EvaluationTrialEvidence)

namespace EvaluationRecord

variable (record : EvaluationRecord)

def intentOf (slotId : String) : Option EvaluationLaunchIntent :=
  rowAt (·.slotId) record.intents slotId

def dispositionOf (slotId : String) : Option EvaluationSlotDisposition :=
  rowAt (·.slotId) record.dispositions slotId

/-- The unreleased intents of a class: those of targets, or those of scorers. -/
def active (target : Bool) : Nat :=
  record.intents.countP fun item => !item.released && item.scorerSlotId.isNone == target

def register (intent : EvaluationLaunchIntent) (capacity : Nat) (now : Time) :
    Except Raised EvaluationRecord := do
  record.requireContent now
  match record.intentOf intent.slotId with
  | some current => do
    refuse (current.submission ≠ intent.submission ∨ current.trial ≠ intent.trial ∨
      current.scorerSlotId ≠ intent.scorerSlotId) (.ai .idempotencyConflict)
    return record
  | none =>
    if ∃ item ∈ record.dispositions,
        item.slotId = intent.slotId ∧ item.disposition.Terminal then return record
    else if record.gate ≠ .open ∨ capacity ≤ record.active intent.scorerSlotId.isNone then
      return record
    else
      return { record with
        intents := record.intents ++ [intent]
        dispositions := record.dispositions.filter fun item => item.slotId ≠ intent.slotId }

def append (item : EvaluationSlotDisposition) : EvaluationRecord :=
  if ∃ intent ∈ record.intentOf item.slotId, intent.released = false then record
  else if ∃ current ∈ record.dispositionOf item.slotId,
      current.disposition.Terminal ∨ current = item then record
  else
    { record with
      dispositions := (record.dispositions.filter fun value => value.slotId ≠ item.slotId) ++
        [item] }

def closeGate (budget : Bool) : EvaluationRecord :=
  if record.gate = .open ∨ budget = false ∧ record.gate = .closedBudget then
    { record with gate := if budget then .closedBudget else .closedCancel }
  else record

def settle (slotId : String) (confirmed released : Bool) : EvaluationRecord :=
  { record with
    intents := record.intents.map fun item =>
      if item.slotId = slotId then
        { item with
          confirmed := item.confirmed || confirmed
          released := item.released || released }
      else item }

def publish (evidence : EvaluationTrialEvidence) (now : Time) : Except Raised EvaluationRecord := do
  record.requireContent now
  if ∃ item ∈ record.evidence, item.trial = evidence.trial then return record
  else return { record with evidence := record.evidence ++ [evidence] }

end EvaluationRecord

def Change.apply (now : Time) (record : EvaluationRecord) : Change → Except Raised EvaluationRecord
  | .registerLaunchIntent intent capacity => record.register intent capacity now
  | .appendSlotDisposition item => .ok (record.append item)
  | .closeReservationGate budget => .ok (record.closeGate budget)
  | .settleIntent slotId confirmed released => .ok (record.settle slotId confirmed released)
  | .publishTrialEvidence evidence => record.publish evidence now

def Change.update (change : Change) (now : Time) (record : EvaluationRecord) :
    Except Raised EvaluationRecord := do
  let changed ← change.apply now record
  if changed = record then return record
  else do
    refuse (changed.manifest ≠ record.manifest ∨ changed.requestDigest ≠ record.requestDigest ∨
      changed.manifestDigest ≠ record.manifestDigest ∨
      changed.ownedInputCaptures ≠ record.ownedInputCaptures) .integrity
    return { changed with revision := record.revision + 1, updatedAt := now }

structure IntentGrew (intent later : EvaluationLaunchIntent) : Prop where
  slotId : later.slotId = intent.slotId
  trial : later.trial = intent.trial
  scorerSlotId : later.scorerSlotId = intent.scorerSlotId
  submission : later.submission = intent.submission
  deadlineAt : later.deadlineAt = intent.deadlineAt
  confirmed : intent.confirmed = true → later.confirmed = true
  released : intent.released = true → later.released = true

theorem IntentGrew.refl : IntentGrew intent intent :=
  ⟨rfl, rfl, rfl, rfl, rfl, id, id⟩

theorem IntentGrew.trans (left : IntentGrew first middle) (right : IntentGrew middle last) :
    IntentGrew first last :=
  ⟨right.slotId.trans left.slotId, right.trial.trans left.trial,
    right.scorerSlotId.trans left.scorerSlotId, right.submission.trans left.submission,
    right.deadlineAt.trans left.deadlineAt, fun set => right.confirmed (left.confirmed set),
    fun set => right.released (left.released set)⟩

inductive GateMoves : ReservationGate → ReservationGate → Prop
  | refl : GateMoves gate gate
  | budget : GateMoves .open .closedBudget
  | cancel : GateMoves .open .closedCancel
  | cancelAfterBudget : GateMoves .closedBudget .closedCancel

theorem GateMoves.trans (left : GateMoves first middle) (right : GateMoves middle last) :
    GateMoves first last := by
  cases left with
  | refl => exact right
  | budget =>
    cases right with
    | refl => exact .budget
    | cancelAfterBudget => exact .cancel
  | cancel =>
    cases right with
    | refl => exact .cancel
  | cancelAfterBudget =>
    cases right with
    | refl => exact .cancelAfterBudget

theorem GateMoves.closed {first last : ReservationGate} (moves : GateMoves first last)
    (closed : first ≠ .open) : last ≠ .open := by
  cases moves with
  | refl => exact closed
  | budget => exact absurd rfl closed
  | cancel => exact absurd rfl closed
  | cancelAfterBudget => exact nofun

structure Evolves (first last : EvaluationRecord) : Prop where
  manifest : last.manifest = first.manifest
  intents : ∃ kept more, last.intents = kept ++ more ∧ List.Forall₂ IntentGrew first.intents kept
  terminal : ∀ item ∈ first.dispositions, item.disposition.Terminal → item ∈ last.dispositions
  evidence : first.evidence <+: last.evidence
  gate : GateMoves first.gate last.gate
  closed : first.gate ≠ .open → last.intents.map (·.slotId) = first.intents.map (·.slotId)
  settled : ∀ item ∈ first.dispositions, item.disposition.Terminal →
    item.slotId ∈ last.intents.map (·.slotId) → item.slotId ∈ first.intents.map (·.slotId)

theorem forall₂_intentGrew_refl : List.Forall₂ IntentGrew intents intents := by
  induction intents with
  | nil => exact .nil
  | cons intent rest ih => exact .cons .refl ih

theorem forall₂_intentGrew_trans (left : List.Forall₂ IntentGrew first middle)
    (right : List.Forall₂ IntentGrew middle last) : List.Forall₂ IntentGrew first last := by
  induction left generalizing last with
  | nil => exact right
  | cons head _ ih =>
    cases right with
    | cons next rest => exact .cons (head.trans next) (ih rest)

theorem forall₂_append_left (grew : List.Forall₂ IntentGrew (kept ++ more) later) :
    ∃ front back, later = front ++ back ∧ List.Forall₂ IntentGrew kept front := by
  induction kept generalizing later with
  | nil => exact ⟨[], later, rfl, .nil⟩
  | cons intent rest ih =>
    cases grew with
    | cons head tail =>
      obtain ⟨front, back, rfl, ahead⟩ := ih tail
      exact ⟨_ :: front, back, rfl, .cons head ahead⟩

theorem Evolves.refl : Evolves record record where
  manifest := rfl
  intents := ⟨record.intents, [], (List.append_nil _).symm, forall₂_intentGrew_refl⟩
  terminal _ member _ := member
  evidence := List.prefix_rfl
  gate := .refl
  closed _ := rfl
  settled _ _ _ member := member

theorem Evolves.trans (left : Evolves first middle) (right : Evolves middle last) :
    Evolves first last := by
  refine ⟨right.manifest.trans left.manifest, ?_, fun item member terminal => ?_,
    left.evidence.trans right.evidence, left.gate.trans right.gate, fun closed => ?_,
    fun item member terminal later => ?_⟩
  · obtain ⟨kept, more, split, grew⟩ := left.intents
    obtain ⟨keptLater, moreLater, splitLater, grewLater⟩ := right.intents
    rw [split] at grewLater
    obtain ⟨front, back, rfl, ahead⟩ := forall₂_append_left grewLater
    exact ⟨front, back ++ moreLater, by rw [splitLater, List.append_assoc],
      forall₂_intentGrew_trans grew ahead⟩
  · exact right.terminal item (left.terminal item member terminal) terminal
  · rw [right.closed (left.gate.closed closed), left.closed closed]
  · exact left.settled item member terminal
      (right.settled item (left.terminal item member terminal) terminal later)

end Linktools.Evaluation
