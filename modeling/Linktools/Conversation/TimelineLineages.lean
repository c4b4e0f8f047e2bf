import Linktools.Conversation.ExecutionSlot
import Linktools.Conversation.TimelinePages

namespace Linktools.Conversation

open Library Library.Machine Transcript ConversationRepository Function List

/-! The timeline of a session: turn facts numbered without a gap, found by their
execution, and at most one commit for each. -/

def WritesTurn (store : ConversationStore) (sessionId executionId : String) :
    ConversationCall → Prop
  | .admitExecution _ session execution expected _ _ =>
    session = sessionId ∧ execution = executionId ∧ ∃ current,
      store.sessions sessionId = some current ∧ current.activeExecutionId = none ∧
      current.status = .open ∧ current.continuation = expected
  | .commitPendingTurn expected execution _ _ _ =>
    expected.sessionId = sessionId ∧ execution = executionId ∧ ∃ current,
      store.sessions sessionId = some current ∧ current.activeExecutionId = none ∧
      current.status = .open ∧ current.same expected = true
  | _ => False

/-- What such a call also checks before it writes the turn. -/
def ConversationCall.Passes (repo : ConversationRepository) (current : SessionRecord) :
    ConversationCall → Prop
  | .admitExecution tenantId _ executionId _ expectedSession _ =>
    tenantId = repo.tenantId ∧ executionId ≠ "" ∧ current.historyQuality ≠ .unavailable ∧
      requireExpectedSession current expectedSession = .ok ()
  | .commitPendingTurn _ _ nextCursor outcome _ =>
    (outcome.status = .succeeded ∨ outcome.status = .failed ∨ outcome.status = .cancelled) ∧
      (outcome.status = .succeeded ↔ nextCursor ≠ none) ∧
      (outcome.output ≠ none ↔ outcome.status = .succeeded) ∧ (outcome.status ≠ .succeeded →
        outcome.startMessageIndex = 0 ∧ outcome.endMessageIndex = 0)
  | _ => True

def WritesOnce (repo : ConversationRepository) (store : ConversationStore)
    (label : ConversationLabel) : Prop :=
  ∀ sessionId executionId current, store.sessions sessionId = some current →
    label.call.Passes repo current → WritesTurn store sessionId executionId label.call →
    store.executionTurns sessionId executionId = []

variable {repo : ConversationRepository} {store after : ConversationStore}
  {call : ConversationCall} {record : SessionRecord} {sessionId executionId : String}
  {outcome : TurnOutcome}

theorem WritesTurn.passes (writes : WritesTurn store sessionId executionId call)
    (done : call.run repo store = .ok after) :
    ∃ current, store.sessions sessionId = some current ∧ call.Passes repo current := by
  cases call with
  | admitExecution =>
    obtain ⟨rfl, rfl, current, stored, free, _⟩ := writes
    obtain ⟨⟨⟨record, turn⟩, next⟩, admitted, _⟩ := bind_eq_ok.mp done
    obtain ⟨_, found, _, taken⟩ := admitExecution_ok admitted
    cases stored.symm.trans found
    simp only [admitExecution, bind_eq_ok, refuse_eq_ok, requireRepositoryTenant] at admitted
    obtain ⟨_, tenant, _, got, _, expected, _, quality, _⟩ := admitted
    cases (ConversationStore.getSession_eq_ok.mp got).1.symm.trans found
    refine ⟨current, found, not_not.mp tenant, ?_, quality, expected⟩
    rcases taken with ⟨held, _⟩ | ⟨_, nonempty, _⟩
    · cases held.symm.trans free
    · exact nonempty
  | commitPendingTurn =>
    obtain ⟨rfl, rfl, current, stored, _⟩ := writes
    obtain ⟨⟨record, next⟩, committed, _⟩ := bind_eq_ok.mp done
    simp only [commitPendingTurn, bind_eq_ok, refuse_eq_ok] at committed
    obtain ⟨_, _, _, _, _, fits, _⟩ := committed
    refine ⟨current, stored, ?_⟩
    rw [ConversationCall.Passes]
    tauto
  | _ => exact writes.elim

structure SameTurns (store after : ConversationStore) : Prop where
  turns : after.turns = store.turns
  sequences : after.turnSequences = store.turnSequences

structure AddsTurn (store after : ConversationStore) (sessionId executionId : String) : Prop where
  turns : after.turns = update store.turns sessionId
    (store.turns sessionId ++ [⟨store.turnSequences sessionId + 1, executionId⟩])
  sequences : after.turnSequences = update store.turnSequences sessionId
    (store.turnSequences sessionId + 1)

def KeepsCommits (store after : ConversationStore) : Prop :=
  ∀ key commit, store.turnCommits key = some commit → after.turnCommits key = some commit

structure TimelineStep (store after : ConversationStore) (call : ConversationCall) : Prop where
  turns : SameTurns store after ∨ ∃ sessionId executionId,
    WritesTurn store sessionId executionId call ∧ AddsTurn store after sessionId executionId
  commits : KeepsCommits store after

theorem timelineStep_of_same (turns : after.turns = store.turns)
    (sequences : after.turnSequences = store.turnSequences)
    (commits : after.turnCommits = store.turnCommits) : TimelineStep store after call :=
  ⟨.inl ⟨turns, sequences⟩, fun _ _ stored => by rw [commits, stored]⟩

variable {commit : SessionTurnCommit}

theorem keepsCommits_update (fresh : store.turnCommits key = none)
    (commits : after.turnCommits = update store.turnCommits key (some commit)) :
    KeepsCommits store after := by
  intro other stored found
  have different : other ≠ key := by
    rintro rfl
    cases fresh.symm.trans found
  rw [commits, update_of_ne different, found]

theorem ConversationRepository.RewritesSession.timelineStep
    {next : SessionRecord} (rewrites : RewritesSession store after sessionId current next) :
    TimelineStep store after call := by
  obtain ⟨_, _, _, _, ledger, rfl⟩ := rewrites
  exact timelineStep_of_same rfl rfl rfl

theorem ConversationRepository.CreatesSession.timelineStep
    (creates : ConversationRepository.CreatesSession store after record) :
    TimelineStep store after call := by
  obtain ⟨ledger, history, _, _, _, _, _, _, _, _, rfl⟩ := creates
  exact timelineStep_of_same rfl rfl rfl

theorem ConversationRepository.ForksSession.timelineStep
    (forks : ConversationRepository.ForksSession store after source child nodeId record) :
    TimelineStep store after call := by
  obtain ⟨ledger, _, _, _, _, _, indexed, history, projections, _, _, _, _, _, _, _, extended, _, _,
    _, _, _, _, _, rfl⟩ := forks
  obtain ⟨indexNodes, rfl⟩ := ConversationStore.extendIndex_nodes extended
  exact timelineStep_of_same rfl rfl rfl

theorem timelineStep_of_ok (done : call.run repo store = .ok after) :
    TimelineStep store after call := by
  cases ConversationCall.returned_of_ok done with
  | quiet kept => exact kept ▸ timelineStep_of_same rfl rfl rfl
  | rewritten rewrites => exact rewrites.timelineStep
  | created creates => exact creates.timelineStep
  | forkedSession _ _ forks => exact forks.timelineStep
  | promoted _ _ _ inserted => exact inserted ▸ timelineStep_of_same rfl rfl rfl
  | forked forks =>
    obtain ⟨_, _, _, _, _, _, extended, _, _, _, _, projections, puts⟩ :=
      ConversationStore.fork_ok forks
    obtain ⟨indexNodes, rfl⟩ := ConversationStore.extendIndex_nodes extended
    rcases puts with ⟨_, _, rfl⟩ | ⟨_, rfl⟩
    · exact timelineStep_of_same rfl rfl rfl
    · exact timelineStep_of_same rfl rfl rfl
  | appended appends =>
    obtain ⟨_, _, _, rfl⟩ := ConversationStore.appendChunks_ok appends
    exact timelineStep_of_same rfl rfl rfl
  | @admitted _ session execution _ _ _ current stored _ opened taken =>
    subst taken
    exact ⟨.inr ⟨session, execution, ⟨rfl, rfl, current, stored, opened⟩, rfl, rfl⟩,
      fun _ _ found => found⟩
  | committed fresh commits =>
    subst commits
    exact ⟨.inl ⟨rfl, rfl⟩, keepsCommits_update fresh rfl⟩
  | committedPending rewrites opened _ fresh commits =>
    subst commits
    exact ⟨.inr ⟨_, _, ⟨rfl, rfl, _, rewrites.1, opened⟩, rfl, rfl⟩, keepsCommits_update fresh rfl⟩

structure NumberedTurns (store : ConversationStore) : Prop where
  sequences : ∀ sessionId, (store.turns sessionId).map StoredFact.sequence =
    range' 1 (store.turnSequences sessionId)

structure Timeline (store : ConversationStore) : Prop extends NumberedTurns store where
  single : ∀ sessionId executionId, (store.executionTurns sessionId executionId).length ≤ 1

theorem timeline_empty : Timeline {} where
  sequences _ := rfl
  single _ _ := Nat.zero_le 1

theorem Timeline.same (timeline : Timeline store) (same : SameTurns store after) :
    Timeline after where
  sequences := by
    rw [same.turns, same.sequences]
    exact timeline.sequences
  single sessionId executionId := by
    rw [ConversationStore.executionTurns, same.turns]
    exact timeline.single sessionId executionId

theorem NumberedTurns.adds (timeline : NumberedTurns store)
    (adds : AddsTurn store after sessionId executionId) : NumberedTurns after where
  sequences other := by
    rw [adds.turns, adds.sequences]
    by_cases same : other = sessionId
    · subst same
      rw [update_self, update_self, map_append, timeline.sequences,
        range'_concat, one_mul, add_comm 1]
      rfl
    · rw [update_of_ne same, update_of_ne same]
      exact timeline.sequences other

theorem Timeline.adds (timeline : Timeline store)
    (adds : AddsTurn store after sessionId executionId)
    (fresh : store.executionTurns sessionId executionId = []) : Timeline after where
  toNumberedTurns := timeline.toNumberedTurns.adds adds
  single other execution := by
    have before := timeline.single other execution
    rw [ConversationStore.executionTurns, adds.turns]
    by_cases same : other = sessionId
    · subst same
      rw [update_self, filter_append, length_append]
      by_cases own : execution = executionId
      · subst own
        rw [← ConversationStore.executionTurns, fresh, length_nil, zero_add]
        exact length_filter_le _ _
      · have none : ([⟨store.turnSequences other + 1, executionId⟩] :
            List (StoredFact String)).filter (fun fact => fact.data = execution) = [] := by
          simp [Ne.symm own]
        rw [none]
        exact before
    · rw [update_of_ne same]
      exact before

/-- A commit of the execution's turn goes through, unless the turn has been committed
otherwise before. -/
def CommitsTurn (repo : ConversationRepository) (store : ConversationStore)
    (sessionId executionId : String) (turnSeq : Nat) : Prop :=
  ∀ outcome allowUnadmitted commit,
    (outcome.commit sessionId turnSeq executionId).validated = .ok commit →
    (∀ stored, store.turnCommits (sessionId, turnSeq) = some stored → stored = commit) →
    ∃ after, repo.commitTimelineTurn store repo.tenantId sessionId executionId outcome
      allowUnadmitted none = .ok (some commit, after)

variable {fact : StoredFact String}

theorem Timeline.onlyTurn (timeline : Timeline store) (member : fact ∈ store.turns sessionId)
    (named : sessionId ≠ "" ∧ fact.data ≠ "") (allowUnadmitted : Bool) :
    ∃ turn : SessionTurnRef, store.onlyTurn sessionId fact.data allowUnadmitted = .ok (some turn) ∧
      turn.sessionId = sessionId ∧ turn.turnSeq = fact.sequence ∧ turn.executionId = fact.data := by
  have positive : 1 ≤ fact.sequence := by
    have listed := mem_map_of_mem (f := StoredFact.sequence) member
    rw [timeline.sequences, mem_range'_1] at listed
    exact listed.1
  have own : fact ∈ store.executionTurns sessionId fact.data :=
    mem_filter.mpr ⟨member, decide_eq_true rfl⟩
  have alone : store.executionTurns sessionId fact.data = [fact] := by
    have single := timeline.single sessionId fact.data
    obtain ⟨other, only⟩ := length_eq_one_iff.mp
      (le_antisymm single (length_pos_of_mem own))
    rw [only, mem_singleton] at own
    rw [only, own]
  have valid : sessionId ≠ "" ∧ fact.data ≠ "" ∧ (1 : Int) ≤ fact.sequence :=
    ⟨named.1, named.2, by omega⟩
  refine ⟨⟨sessionId, fact.sequence, fact.data, valid⟩, ?_, rfl, rfl, rfl⟩
  rw [ConversationStore.onlyTurn, alone]
  simp only [ConversationStore.turnRef, dif_pos valid]
  rfl

theorem TurnOutcome.recorded_commit (outcome : TurnOutcome) (turnSeq : Int) :
    outcome.recorded (outcome.commit sessionId turnSeq executionId) :=
  ⟨rfl, rfl, rfl, rfl, rfl, rfl, rfl, rfl, outcome.safeErrorDetails.same_refl⟩

theorem insertTurnCommit_of_fresh
    (fresh : store.turnCommits (commit.sessionId, commit.turnSeq) = none) :
    store.insertTurnCommit commit = .ok { store with
      turnCommits := update store.turnCommits (commit.sessionId, commit.turnSeq)
        (some commit) } := by
  rw [ConversationStore.insertTurnCommit, refuse_of_not (by simp [fresh])]
  rfl

theorem Timeline.commitsTurn (timeline : Timeline store) (member : fact ∈ store.turns sessionId) :
    CommitsTurn repo store sessionId fact.data fact.sequence := by
  intro outcome allowUnadmitted commit valid recorded
  have same := commit_validated_ok valid
  subst same
  obtain ⟨named, bounds⟩ : (sessionId ≠ "" ∧ fact.data ≠ "") ∧ ¬(outcome.startMessageIndex < 0 ∨
        outcome.endMessageIndex < outcome.startMessageIndex) := by
    simp only [SessionTurnCommit.validated, bind_eq_ok, refuse_eq_ok, not_or] at valid
    obtain ⟨_, ⟨session, execution, _, start, stop⟩, _⟩ := valid
    exact ⟨⟨session, execution⟩, not_or.mpr ⟨start, stop⟩⟩
  obtain ⟨turn, only, session, sequence, execution⟩ :=
    timeline.onlyTurn member named allowUnadmitted
  rw [commitTimelineTurn, requireRepositoryTenant,
    refuse_of_not (not_not.mpr rfl), ok_bind, committedTurn, only, ok_bind]
  dsimp only
  rw [refuse_of_not (not_not.mpr execution), ok_bind, sequence]
  cases stored : store.turnCommits (sessionId, fact.sequence) with
  | some existing =>
    rw [recorded existing stored]
    have decoded : ConversationStore.decodeTimelineCommit sessionId fact.sequence
        (outcome.commit sessionId fact.sequence fact.data) =
          .ok (outcome.commit sessionId fact.sequence fact.data) := by
      rw [ConversationStore.decodeTimelineCommit, refuse_of_not (by simp [TurnOutcome.commit])]
      rfl
    have owned : (outcome.commit sessionId fact.sequence fact.data).executionId = fact.data := rfl
    dsimp only
    rw [decoded, ok_bind, refuse_of_not (not_not.mpr owned), ok_bind,
      refuse_of_not (not_not.mpr (outcome.recorded_commit fact.sequence)), ok_bind]
    exact ⟨_, rfl⟩
  | none =>
    dsimp only
    rw [refuse_of_not bounds, ok_bind, valid, ok_bind, insertTurnCommit_of_fresh stored]
    exact ⟨_, rfl⟩

theorem commit_refused_of_two_turns
    (two : 2 ≤ (store.executionTurns sessionId executionId).length) :
    repo.commitTimelineTurn store repo.tenantId sessionId executionId outcome
      allowUnadmitted none = .error .integrity := by
  have none : store.onlyTurn sessionId executionId allowUnadmitted = .error .integrity := by
    unfold ConversationStore.onlyTurn
    split
    case h_1 empty =>
      rw [empty] at two
      cases two
    case h_2 alone =>
      rw [alone] at two
      exact absurd two (Nat.not_succ_le_self 1)
    case h_3 => rfl
  rw [commitTimelineTurn, requireRepositoryTenant,
    refuse_of_not (not_not.mpr rfl), ok_bind, committedTurn, none]
  rfl

variable {first last : ConversationStore} {label : ConversationLabel}
  {labels : List ConversationLabel}

theorem timeline_step
    (step : ((conversationSystem repo).restrict (WritesOnce repo)).step first label last)
    (timeline : Timeline first) : Timeline last ∧ KeepsCommits first last := by
  obtain ⟨step, once⟩ := step
  rcases callSystem_cases step with ⟨_, done⟩ | ⟨_, _, _, rfl⟩
  · obtain ⟨same | ⟨sessionId, executionId, writes, adds⟩, commits⟩ := timelineStep_of_ok done
    · exact ⟨timeline.same same, commits⟩
    · obtain ⟨current, stored, passes⟩ := writes.passes done
      have fresh := once sessionId executionId current stored passes writes
      exact ⟨timeline.adds adds fresh, commits⟩
  · exact ⟨timeline, fun _ _ stored => stored⟩

theorem timeline_run (run : Run ((conversationSystem repo).restrict (WritesOnce repo)) first
    labels last) (timeline : Timeline first) : Timeline last ∧ KeepsCommits first last := by
  induction run with
  | nil => exact ⟨timeline, fun _ _ stored => stored⟩
  | cons step _ ih =>
    obtain ⟨next, kept⟩ := timeline_step step timeline
    obtain ⟨final, keptLater⟩ := ih next
    exact ⟨final, fun key commit stored => keptLater key commit (kept key commit stored)⟩

/-- In every run that writes turns only for executions without one, the turns of a session
are numbered from one on, no execution has two, a commit once stored stays, and the commit
of every turn goes through. -/
theorem session_timeline_sound {earlier later : List ConversationLabel} {middle : ConversationStore}
    (before : Run ((conversationSystem repo).restrict (WritesOnce repo)) {} earlier middle)
    (after : Run ((conversationSystem repo).restrict (WritesOnce repo)) middle later last)
    (sessionId : String) :
    (∃ count, (last.turns sessionId).map StoredFact.sequence = range' 1 count) ∧
    (∀ executionId, (last.executionTurns sessionId executionId).length ≤ 1) ∧
    (∀ turnSeq commit, middle.turnCommits (sessionId, turnSeq) = some commit →
      last.turnCommits (sessionId, turnSeq) = some commit) ∧ ∀ fact ∈ last.turns sessionId,
      CommitsTurn repo last sessionId fact.data fact.sequence := by
  obtain ⟨timeline, _⟩ := timeline_run before timeline_empty
  obtain ⟨final, kept⟩ := timeline_run after timeline
  exact ⟨⟨_, final.sequences sessionId⟩, final.single sessionId,
    fun turnSeq => kept (sessionId, turnSeq), fun fact => final.commitsTurn⟩

def sampleCreated : ConversationStore :=
  (playCalls (ConversationCall.run sampleRepository) {}
    [.createSession { sampleSession with historyId := none }]).1

def sampleAdmitted : ConversationStore :=
  (playCalls (ConversationCall.run sampleRepository) sampleCreated
    [.admitExecution "t" "s" "e1" none none false]).1

/-- The turn of a first admission can be committed. -/
theorem sample_turn_commits : CommitsTurn sampleRepository sampleAdmitted "s" "e1" 1 := by
  have created : Run ((conversationSystem sampleRepository).restrict
      (WritesOnce sampleRepository)) {}
      (playCalls (ConversationCall.run sampleRepository) {}
        [.createSession { sampleSession with historyId := none }]).2 sampleCreated := by
    refine run_restrict_playCalls fun store call member raised => ?_
    rw [mem_singleton.mp member]
    exact fun _ _ _ _ _ writes => writes.elim
  have admitted : ((conversationSystem sampleRepository).restrict
      (WritesOnce sampleRepository)).step sampleCreated
      ⟨.admitExecution "t" "s" "e1" none none false, none⟩ sampleAdmitted := by
    refine ⟨step_playCall (by decide +kernel), ?_⟩
    rintro sessionId executionId _ _ _ ⟨rfl, rfl, _⟩
    decide +kernel
  have member : (⟨1, "e1"⟩ : StoredFact String) ∈ sampleAdmitted.turns "s" := by decide +kernel
  exact (session_timeline_sound created (.single admitted) "s").2.2.2 _ member

def sampleOutcome : TurnOutcome where
  startMessageIndex := 0
  endMessageIndex := 2
  storedUserInput := "input"
  output := some "output"
  status := .succeeded
  createdAt := 0
  updatedAt := 1
  errorCode := none
  safeErrorDetails := []

def sampleReadmissions : List ConversationCall :=
  sampleAdmissions ++ [.admitExecution "t" "s" "e1" none none false]

/-- All calls return, the execution has two turns, and its commit is refused. -/
theorem sample_readmission_breaks_commit : Run (conversationSystem sampleRepository) {}
        (sampleReadmissions.map fun call => ⟨call, none⟩)
        (playCalls (ConversationCall.run sampleRepository) {} sampleReadmissions).1 ∧
      ((playCalls (ConversationCall.run sampleRepository) {} sampleReadmissions).1.executionTurns
        "s" "e1").length = 2 ∧ sampleRepository.commitTimelineTurn
          (playCalls (ConversationCall.run sampleRepository) {} sampleReadmissions).1 "t" "s" "e1"
          sampleOutcome false none = .error .integrity := by
  have labels : (playCalls (ConversationCall.run sampleRepository) {} sampleReadmissions).2 =
      sampleReadmissions.map fun call => ⟨call, none⟩ := playCalls_quiet (by decide +kernel)
  refine ⟨?_, by decide +kernel, ?_⟩
  · rw [← labels]
    exact run_playCalls _ sampleReadmissions
  · exact commit_refused_of_two_turns (by decide +kernel)

structure TurnPlace where
  sessionId : String
  turnSeq : Nat
  executionId : String

def SessionTurnRef.place (ref : SessionTurnRef) : TurnPlace :=
  ⟨ref.sessionId, ref.turnSeq.toNat, ref.executionId⟩

variable {owner parent : String} {cutoff : Nat} {chain rest : List (SessionRecord × Nat)}
  {root : SessionRecord}

def factPlace (sessionId : String) (fact : StoredFact String) : TurnPlace :=
  ⟨sessionId, fact.sequence, fact.data⟩

def ownTurns (store : ConversationStore) (sessionId : String) (cutoff : Nat) : List TurnPlace :=
  (((store.turns sessionId).take cutoff).map (factPlace sessionId)).reverse

/-- The sessions whose turns are behind a coordinate, each with the number of its turns that
are visible from there. -/
inductive Ancestry (store : ConversationStore) (owner : String) :
    String → Nat → List (SessionRecord × Nat) → Prop
  | first {record : SessionRecord} {cutoff : Nat}
      (stored : store.sessions record.sessionId = some record)
      (own : record.ownerPrincipalId = owner)
      (within : cutoff ≤ store.turnSequences record.sessionId)
      (root : record.timelineParentSessionId = none) :
      Ancestry store owner record.sessionId cutoff [(record, cutoff)]
  | forked {record : SessionRecord} {cutoff forkTurn : Nat} {parent : String}
      {rest : List (SessionRecord × Nat)} (stored : store.sessions record.sessionId = some record)
      (own : record.ownerPrincipalId = owner)
      (within : cutoff ≤ store.turnSequences record.sessionId)
      (fork : record.timelineParentSessionId = some parent ∧
        record.timelineParentTurnSeq = forkTurn) (visible : 1 ≤ forkTurn)
      (behind : Ancestry store owner parent forkTurn rest) :
      Ancestry store owner record.sessionId cutoff ((record, cutoff) :: rest)

def lineageTurns (store : ConversationStore) (chain : List (SessionRecord × Nat)) :
    List TurnPlace :=
  chain.flatMap fun entry => ownTurns store entry.1.sessionId entry.2

theorem lineageTurns_cons : lineageTurns store ((record, cutoff) :: rest) =
      ownTurns store record.sessionId cutoff ++ lineageTurns store rest :=
  flatMap_cons

def NamedTurns (store : ConversationStore) (sessionId : String) : Prop :=
  ∀ fact ∈ store.turns sessionId, sessionId ≠ "" ∧ fact.data ≠ ""

structure TimelineForest (store : ConversationStore) : Prop where
  timeline : NumberedTurns store
  named : ∀ sessionId, NamedTurns store sessionId
  keyed : ∀ sessionId record, store.sessions sessionId = some record →
    record.sessionId = sessionId ∧ sessionId ≠ ""
  linked : ∀ sessionId record, store.sessions sessionId = some record →
    ∀ parent, record.timelineParentSessionId = some parent → ∃ source,
      store.sessions parent = some source ∧ source.ownerPrincipalId = record.ownerPrincipalId ∧
        1 ≤ record.timelineParentTurnSeq ∧ record.timelineParentTurnSeq ≤ store.turnSequences parent
  acyclic : WellFounded fun parent child => ∃ record, store.sessions child = some record ∧
    record.timelineParentSessionId = some parent

theorem TimelineForest.exists_ancestry (forest : TimelineForest store)
    (stored : store.sessions sessionId = some record)
    (within : cutoff ≤ store.turnSequences sessionId) :
    ∃ chain, Ancestry store record.ownerPrincipalId sessionId cutoff chain := by
  induction sessionId using forest.acyclic.induction generalizing record cutoff with
  | _ sessionId ih =>
    obtain ⟨rfl, _⟩ := forest.keyed _ _ stored
    cases fork : record.timelineParentSessionId with
    | none => exact ⟨_, .first stored rfl within fork⟩
    | some parent =>
      obtain ⟨source, parentStored, owner, visible, bounded⟩ := forest.linked _ _ stored parent fork
      obtain ⟨forkTurn, same⟩ := Int.eq_ofNat_of_zero_le (Int.le_trans (by decide) visible)
      rw [same] at visible bounded
      obtain ⟨rest, ancestry⟩ := ih parent ⟨record, stored, fork⟩ parentStored
        (Int.ofNat_le.mp bounded)
      rw [owner] at ancestry
      exact ⟨_, .forked stored rfl within ⟨fork, same⟩ (Int.ofNat_le.mp visible) ancestry⟩

namespace Ancestry

section

variable (ancestry : Ancestry store owner sessionId cutoff chain)
include ancestry

theorem exists_head :
    ∃ record rest, chain = (record, cutoff) :: rest ∧ record.sessionId = sessionId ∧
      store.sessions sessionId = some record ∧ record.ownerPrincipalId = owner ∧
      cutoff ≤ store.turnSequences sessionId := by
  cases ancestry with
  | first stored own within => exact ⟨_, _, rfl, rfl, stored, own, within⟩
  | forked stored own within => exact ⟨_, _, rfl, rfl, stored, own, within⟩

theorem ids_unique (again : Ancestry store owner sessionId otherCutoff other) :
    other.map (·.1.sessionId) = chain.map (·.1.sessionId) := by
  induction ancestry generalizing otherCutoff other with
  | first stored _ _ root =>
    generalize same : (_ : SessionRecord).sessionId = id at again
    cases again with
    | first => rw [map_singleton, map_singleton, same]
    | forked otherStored _ _ fork =>
      rw [same] at stored
      cases stored.symm.trans otherStored
      rw [root] at fork
      cases fork.1
  | forked stored _ _ fork _ _ ih =>
    generalize same : (_ : SessionRecord).sessionId = id at again
    cases again with
    | first otherStored _ _ root =>
      rw [same] at stored
      cases stored.symm.trans otherStored
      rw [root] at fork
      cases fork.1
    | forked otherStored _ _ otherFork _ otherRest =>
      rw [same] at stored
      cases stored.symm.trans otherStored
      cases fork.1.symm.trans otherFork.1
      rw [map_cons, map_cons, ih otherRest]

theorem exists_suffix {id : String} (member : id ∈ chain.map (·.1.sessionId)) :
    ∃ before later otherCutoff, chain = before ++ later ∧
      Ancestry store owner id otherCutoff later := by
  induction ancestry with
  | first stored own within root =>
    cases mem_singleton.mp member
    exact ⟨[], _, _, rfl, .first stored own within root⟩
  | forked stored own within fork visible rest ih =>
    cases mem_cons.mp member with
    | inl here =>
      cases here
      exact ⟨[], _, _, rfl, .forked stored own within fork visible rest⟩
    | inr later =>
      obtain ⟨before, tail, otherCutoff, split, ancestry⟩ := ih later
      exact ⟨_ :: before, tail, otherCutoff, by rw [split, cons_append], ancestry⟩

theorem nodup : (chain.map (·.1.sessionId)).Nodup := by
  induction ancestry with
  | first => exact nodup_singleton _
  | @forked record cutoff forkTurn parent rest stored own within fork visible ancestry ih =>
    refine nodup_cons.mpr ⟨fun member => ?_, ih⟩
    obtain ⟨before, later, otherCutoff, split, again⟩ := ancestry.exists_suffix member
    have whole : Ancestry store owner record.sessionId cutoff ((record, cutoff) :: rest) :=
      .forked stored own within fork visible ancestry
    have lengths := congrArg length (whole.ids_unique again)
    rw [length_map, length_map, split, length_cons, length_append] at lengths
    omega

theorem shorten (fewer : smaller ≤ cutoff) : ∃ record rest, chain = (record, cutoff) :: rest ∧
      Ancestry store owner sessionId smaller ((record, smaller) :: rest) := by
  cases ancestry with
  | first stored own within root =>
    exact ⟨_, _, rfl, .first stored own (le_trans fewer within) root⟩
  | forked stored own within fork visible rest =>
    exact ⟨_, _, rfl, .forked stored own (le_trans fewer within) fork visible rest⟩

end

end Ancestry

/-- Turns are admitted to sessions; the sessions stay where they are in the forest. -/
structure TimelineGrows (store after : ConversationStore) : Prop where
  timeline : NumberedTurns after
  named : ∀ sessionId, NamedTurns after sessionId
  turns : ∀ sessionId, store.turns sessionId <+: after.turns sessionId
  sessions : ∀ sessionId record, store.sessions sessionId = some record → ∃ next,
    after.sessions sessionId = some next ∧ next.sessionId = record.sessionId ∧
      next.ownerPrincipalId = record.ownerPrincipalId ∧
      next.timelineParentSessionId = record.timelineParentSessionId ∧
      next.timelineParentTurnSeq = record.timelineParentTurnSeq

theorem NumberedTurns.turns_length (timeline : NumberedTurns store) :
    (store.turns sessionId).length = store.turnSequences sessionId := by
  have sequences := congrArg length (timeline.sequences sessionId)
  rwa [length_map, length_range'] at sequences

theorem TimelineGrows.heads (grows : TimelineGrows store after) (timeline : NumberedTurns store) :
    store.turnSequences sessionId ≤ after.turnSequences sessionId := by
  rw [← timeline.turns_length, ← grows.timeline.turns_length]
  exact (grows.turns sessionId).length_le

theorem TimelineGrows.ownTurns (grows : TimelineGrows store after) (timeline : NumberedTurns store)
    (within : cutoff ≤ store.turnSequences sessionId) :
    ownTurns after sessionId cutoff = ownTurns store sessionId cutoff := by
  obtain ⟨later, split⟩ := grows.turns sessionId
  rw [← timeline.turns_length] at within
  unfold Conversation.ownTurns
  rw [← split, take_append_of_le_length within]

theorem Ancestry.grows (ancestry : Ancestry store owner sessionId cutoff chain)
    (grows : TimelineGrows store after) (timeline : NumberedTurns store) :
    ∃ later, Ancestry after owner sessionId cutoff later ∧
      lineageTurns after later = lineageTurns store chain := by
  induction ancestry with
  | @first record cutoff stored own within root =>
    obtain ⟨next, kept, same, sameOwner, parent, _⟩ := grows.sessions _ _ stored
    have moved : Ancestry after owner next.sessionId cutoff [(next, cutoff)] := by
      apply Ancestry.first
      · exact same ▸ kept
      · exact sameOwner.trans own
      · exact same ▸ le_trans within (grows.heads timeline)
      · exact parent.trans root
    refine ⟨_, same ▸ moved, ?_⟩
    simp only [lineageTurns, flatMap_singleton, same]
    exact grows.ownTurns timeline within
  | @forked record cutoff forkTurn parent rest stored own within fork visible ancestry ih =>
    obtain ⟨next, kept, same, sameOwner, nextParent, forkSeq⟩ := grows.sessions _ _ stored
    obtain ⟨later, lineage, turns⟩ := ih
    have moved : Ancestry after owner next.sessionId cutoff ((next, cutoff) :: later) := by
      apply Ancestry.forked _ _ _ _ visible lineage
      · exact same ▸ kept
      · exact sameOwner.trans own
      · exact same ▸ le_trans within (grows.heads timeline)
      · exact ⟨nextParent.trans fork.1, forkSeq.trans fork.2⟩
    refine ⟨_, same ▸ moved, ?_⟩
    rw [lineageTurns_cons, lineageTurns_cons, turns, same, grows.ownTurns timeline within]

end Linktools.Conversation
