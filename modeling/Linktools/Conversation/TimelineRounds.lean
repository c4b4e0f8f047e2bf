import Linktools.Conversation.TimelineLineages

namespace Linktools.Conversation

open Library Transcript ConversationStore List

variable {store : ConversationStore} {owner sessionId : String} {cutoff start count : Nat}
  {chain rest : List (SessionRecord × Nat)} {root record : SessionRecord}
  {coordinate : Option Coordinate} {pendingExecution : Option TimelineExecution}

variable {facts : List (StoredFact String)} {first fuel size : Nat}

section

variable (sequences : facts.map StoredFact.sequence = range' first size)
include sequences

theorem sequence_of_mem
    (member : fact ∈ facts) : first ≤ fact.sequence ∧ fact.sequence < first + size := by
  have listed := mem_map_of_mem (f := StoredFact.sequence) member
  rwa [sequences, mem_range'_1] at listed

theorem filter_sequence :
    facts.filter (fun fact => (start : Int) - 1 < fact.sequence) = facts.drop (start - first) := by
  have length : size = facts.length := by
    rw [← length_map (f := StoredFact.sequence), sequences, length_range']
  rw [← filter_consecutive (length ▸ sequences)]
  exact filter_congr fun fact _ => decide_eq_decide.mpr (by omega)

end

theorem sequenceRange_eq : sequenceRange start (start + count : Nat) =
      (range' start count).map fun (sequence : Nat) => (sequence : Int) := by
  have size : (((start + count : Nat) : Int) - start).toNat = count := by omega
  rw [sequenceRange, size, range'_eq_map_range, map_map]
  apply map_congr_left
  intro offset _
  exact (Int.natCast_add start offset).symm

section

variable (timeline : NumberedTurns store)
include timeline

theorem listTimelineTurns_ok
    (named : NamedTurns store sessionId)
    (positive : 1 ≤ start) (within : start + count ≤ store.turnSequences sessionId + 1) :
    ∃ refs, store.listTimelineTurns sessionId start (start + count : Nat) = .ok refs ∧
      refs.map (·.place) =
        (((store.turns sessionId).drop (start - 1)).take count).map (factPlace sessionId) := by
  have size : (((start + count : Nat) : Int) - start).toNat = count := by omega
  have sequences := timeline.sequences sessionId
  have listed : (((store.turns sessionId).drop (start - 1)).take count).map StoredFact.sequence =
      range' start count := by
    have enough : store.turnSequences sessionId - (start - 1) ≥ count := by omega
    have first : 1 + (start - 1) * 1 = start := by omega
    rw [map_take, map_drop, sequences, drop_range',
      take_range'_of_length_ge enough, first]
  have selected : (((store.turns sessionId).drop (start - 1)).take count).filter
      (fun fact => (fact.sequence : Int) < (start + count : Nat)) =
        ((store.turns sessionId).drop (start - 1)).take count := by
    rw [filter_eq_self]
    intro fact member
    have bounds := sequence_of_mem listed member
    exact decide_eq_true (by omega)
  have each : ∀ fact ∈ ((store.turns sessionId).drop (start - 1)).take count, ∃ ref,
      turnRef sessionId fact.sequence fact.data = .ok ref ∧
        factPlace sessionId fact = ref.place := by
    intro fact member
    have bounds := sequence_of_mem listed member
    have stored := mem_of_mem_drop (mem_of_mem_take member)
    have valid : sessionId ≠ "" ∧ fact.data ≠ "" ∧ (1 : Int) ≤ fact.sequence :=
      ⟨(named fact stored).1, (named fact stored).2, by omega⟩
    exact ⟨⟨sessionId, fact.sequence, fact.data, valid⟩, dif_pos valid, rfl⟩
  obtain ⟨refs, mapped, related⟩ := exists_mapM each
  refine ⟨refs, ?_, ?_⟩
  · have bounded : ¬((start : Int) < 1 ∨ ((start + count : Nat) : Int) < start) := by omega
    simp only [listTimelineTurns, refuse_of_not bounded, ok_bind,
      filter_sequence sequences, size, selected]
    have whole : (((store.turns sessionId).drop (start - 1)).take count).map
        (fun fact => (fact.sequence : Int)) = sequenceRange start (start + count : Nat) := by
      rw [sequenceRange_eq, ← listed, map_map]
      rfl
    rw [refuse_of_not (not_not.mpr whole), ok_bind]
    exact mapped
  · rw [← forall₂_eq_eq_eq, forall₂_map_left_iff, forall₂_map_right_iff]
    exact related.flip.imp fun _ _ same => same.symm

section

variable (within : cutoff ≤ store.turnSequences sessionId)
include within

theorem ownTurns_take :
    (ownTurns store sessionId cutoff).take count =
      ((((store.turns sessionId).drop (cutoff - count)).take (min count cutoff)).map
        (factPlace sessionId)).reverse := by
  have length : ((store.turns sessionId).take cutoff).length = cutoff := by
    rw [length_take, timeline.turns_length, min_eq_left within]
  rw [ownTurns, take_reverse, length_map, length, ← map_drop, drop_take]
  congr 3
  omega

theorem ownTurns_drop :
    (ownTurns store sessionId cutoff).drop count = ownTurns store sessionId (cutoff - count) := by
  have length : ((store.turns sessionId).take cutoff).length = cutoff := by
    rw [length_take, timeline.turns_length, min_eq_left within]
  rw [ownTurns, drop_reverse, length_map, length, ← map_take, take_take,
    min_eq_left (Nat.sub_le _ _), ownTurns]

theorem ownTurns_length :
    (ownTurns store sessionId cutoff).length = cutoff := by
  rw [ownTurns, length_reverse, length_map, length_take, timeline.turns_length,
    min_eq_left within]

end

theorem pageTurns_none (named : NamedTurns store sessionId)
    (within : cutoff ≤ store.turnSequences sessionId) :
    ∃ refs, pageTurns store sessionId ((cutoff + 1 : Nat) - (min count cutoff : Nat))
        (cutoff + 1 : Nat) none = .ok refs ∧
      (refs.map (·.place)).reverse = (ownTurns store sessionId cutoff).take count := by
  obtain ⟨refs, listed, places⟩ := @listTimelineTurns_ok store sessionId
    (cutoff + 1 - min count cutoff) (min count cutoff) timeline named (by omega) (by omega)
  have start : ((cutoff + 1 - min count cutoff : Nat) : Int) =
      (cutoff + 1 : Nat) - (min count cutoff : Nat) := by omega
  have stop : cutoff + 1 - min count cutoff + min count cutoff = cutoff + 1 := by omega
  have bound : min ((cutoff + 1 : Nat) : Int) ((store.timelineHead sessionId : Int) + 1) =
      (cutoff + 1 : Nat) := by
    rw [timelineHead]
    omega
  rw [start, stop] at listed
  refine ⟨refs, ?_, ?_⟩
  · simp only [pageTurns, Option.isSome_none, Bool.false_eq_true, false_and, if_false, bound,
      listed]
    rfl
  · have first : cutoff + 1 - min count cutoff - 1 = cutoff - count := by omega
    rw [places, first, ownTurns_take timeline within]

end

variable {refs : List SessionTurnRef}

theorem filter_places (places : refs.map (·.place) = facts.map (factPlace sessionId)) :
    (refs.filter fun value => (start : Int) ≤ value.turnSeq).map (·.place) =
      (facts.filter fun fact => (start : Int) - 1 < fact.sequence).map (factPlace sessionId) := by
  have ofRefs : (refs.map (·.place)).filter (fun place => start ≤ place.turnSeq) =
      (refs.filter fun value => (start : Int) ≤ value.turnSeq).map (·.place) := by
    rw [filter_map]
    congr 1
    apply filter_congr
    intro ref _
    apply decide_eq_decide.mpr
    have positive := ref.valid.2.2
    change start ≤ ref.turnSeq.toNat ↔ _
    omega
  have ofFacts : (facts.map (factPlace sessionId)).filter (fun place => start ≤ place.turnSeq) =
      (facts.filter fun fact => (start : Int) - 1 < fact.sequence).map (factPlace sessionId) := by
    rw [filter_map]
    congr 1
    apply filter_congr
    intro fact _
    apply decide_eq_decide.mpr
    change start ≤ fact.sequence ↔ _
    omega
  rw [← ofRefs, places, ofFacts]

theorem pageTurns_some {execution : TimelineExecution} (timeline : NumberedTurns store)
    (named : NamedTurns store sessionId)
    (present : sessionId ≠ "" ∧ execution.executionId ≠ "")
    (fresh : ∀ fact ∈ store.turns sessionId, fact.data ≠ execution.executionId)
    (head : cutoff = store.turnSequences sessionId) (within : count ≤ cutoff) :
    ∃ refs, pageTurns store sessionId ((cutoff + 2 : Nat) - (count + 1 : Nat))
        (cutoff + 2 : Nat) (some execution) = .ok refs ∧
      (refs.map (·.place)).reverse = ⟨sessionId, cutoff + 1, execution.executionId⟩ ::
        (ownTurns store sessionId cutoff).take count := by
  have reached : ∃ first, 1 ≤ first ∧ first ≤ cutoff + 1 - count ∧
      (if (some execution).isSome = true ∧ store.timelineHead sessionId ≠ 0 then
        min (((cutoff + 2 : Nat) : Int) - (count + 1 : Nat)) (store.timelineHead sessionId)
      else ((cutoff + 2 : Nat) : Int) - (count + 1 : Nat)) = (first : Int) := by
    have same : store.timelineHead sessionId = cutoff := head.symm
    rw [same]
    by_cases empty : cutoff = 0
    case pos =>
      rw [if_neg fun some => some.2 empty]
      exact ⟨1, Nat.le_refl 1, by omega, by omega⟩
    case neg =>
      rw [if_pos ⟨rfl, empty⟩]
      exact ⟨min (cutoff + 1 - count) cutoff, by omega, by omega, by omega⟩
  obtain ⟨first, positive, below, starts⟩ := reached
  obtain ⟨refs, listed, places⟩ := @listTimelineTurns_ok store sessionId first
    (cutoff + 1 - first) timeline named positive (by omega)
  have stop : first + (cutoff + 1 - first) = cutoff + 1 := by omega
  have bound : min ((cutoff + 2 : Nat) : Int) ((store.timelineHead sessionId : Int) + 1) =
      (cutoff + 1 : Nat) := by
    rw [timelineHead]
    omega
  rw [stop] at listed
  have valid : sessionId ≠ "" ∧ execution.executionId ≠ "" ∧
      (1 : Int) ≤ (store.timelineHead sessionId : Int) + 1 := ⟨present.1, present.2, by omega⟩
  have absent : ¬∃ value ∈ refs, value.executionId = execution.executionId := by
    rintro ⟨value, member, same⟩
    have listed : value.place ∈ refs.map (·.place) := mem_map_of_mem member
    rw [places] at listed
    obtain ⟨fact, stored, placed⟩ := mem_map.mp listed
    have data : fact.data = value.executionId := congrArg TurnPlace.executionId placed
    exact fresh fact (mem_of_mem_drop (mem_of_mem_take stored)) (data.trans same)
  have start : ((cutoff + 2 : Nat) : Int) - (count + 1 : Nat) = (cutoff + 1 - count : Nat) := by
    omega
  refine ⟨refs.filter (fun value => ((cutoff + 1 - count : Nat) : Int) ≤ value.turnSeq) ++
    [⟨sessionId, store.timelineHead sessionId + 1, execution.executionId, valid⟩], ?_, ?_⟩
  · simp only [pageTurns, starts, bound, listed, ok_bind, refuse_of_not absent,
      turnRef, dif_pos valid]
    rw [start]
    rfl
  · have whole : ((store.turns sessionId).drop (first - 1)).take (cutoff + 1 - first) =
        (store.turns sessionId).drop (first - 1) := by
      apply take_of_length_le
      rw [length_drop, timeline.turns_length]
      omega
    have sequences : ((store.turns sessionId).drop (first - 1)).map StoredFact.sequence =
        range' first (cutoff + 1 - first) := by
      have begin : 1 + (first - 1) * 1 = first := by omega
      have size : store.turnSequences sessionId - (first - 1) = cutoff + 1 - first := by omega
      rw [map_drop, timeline.sequences, drop_range', begin, size]
    have kept := @filter_sequence (cutoff + 1 - count) _ _ _ sequences
    rw [drop_drop, show first - 1 + (cutoff + 1 - count - first) = cutoff - count by omega]
      at kept
    rw [whole] at places
    rw [map_append, reverse_append, filter_places places, kept, ownTurns_take timeline
      (le_of_eq head), min_eq_left within]
    have all : ((store.turns sessionId).drop (cutoff - count)).take count =
        (store.turns sessionId).drop (cutoff - count) := by
      apply take_of_length_le
      rw [length_drop, timeline.turns_length]
      omega
    rw [all]
    have last : SessionTurnRef.place
        ⟨sessionId, store.timelineHead sessionId + 1, execution.executionId, valid⟩ =
          ⟨sessionId, cutoff + 1, execution.executionId⟩ := by
      have same : store.timelineHead sessionId = cutoff := head.symm
      change (⟨sessionId, ((store.timelineHead sessionId : Int) + 1).toNat,
        execution.executionId⟩ : TurnPlace) = _
      rw [same]
      rfl
    rw [map_singleton, last]
    rfl

def newestTurns (blocks : List TimelineBlock) : List TurnPlace :=
  blocks.flatMap fun block => (block.2.map (·.place)).reverse

theorem newestTurns_append : newestTurns (left ++ right) = newestTurns left ++ newestTurns right :=
  flatMap_append

theorem newestTurns_single : newestTurns [(record, refs)] = (refs.map (·.place)).reverse :=
  flatMap_singleton _ _

/-- The round below a coordinate, up to what it does with the session's parent. -/
def TimelineRound.took (round : TimelineRound) (record : SessionRecord) (cutoff : Nat)
    (refs : List SessionTurnRef) : TimelineRound where
  remaining := round.remaining - min round.remaining cutoff
  newestFirst := if cutoff = 0 then round.newestFirst else round.newestFirst ++ [(record, refs)]
  visited := round.sourceId :: round.visited
  sourceId := round.sourceId
  sourceBefore := some (((cutoff + 1 : Nat) : Int) - (min round.remaining cutoff : Nat))
  current := some record

theorem timelineSource_ok (stored : store.sessions sessionId = some record)
    (keyed : record.sessionId = sessionId) (own : record.ownerPrincipalId = root.ownerPrincipalId)
    (known : ∀ other, current = some other → other.sessionId = sessionId → other = record) :
    timelineSource store root sessionId current = .ok record := by
  rw [timelineSource]
  split
  case h_1 found same =>
    obtain ⟨held, keyed⟩ := Option.filter_eq_some_iff.mp same
    rw [known found held (of_decide_eq_true keyed)]
  case h_2 =>
    have sound : ¬(record.sessionId ≠ sessionId ∨
        record.ownerPrincipalId ≠ root.ownerPrincipalId) := by
      rw [not_or, not_not, not_not]
      exact ⟨keyed, own⟩
    rw [stored, orRaise, ok_bind, refuse_of_not sound]
    rfl

variable {round : TimelineRound}

theorem timelineRound_ok (timeline : NumberedTurns store)
    (named : NamedTurns store sessionId)
    (stored : store.sessions sessionId = some record) (keyed : record.sessionId = sessionId)
    (own : record.ownerPrincipalId = root.ownerPrincipalId)
    (within : cutoff ≤ store.turnSequences sessionId) (source : round.sourceId = sessionId)
    (before : round.sourceBefore.getD ((store.timelineHead sessionId : Int) + 1) =
      ((cutoff + 1 : Nat) : Int))
    (known : ∀ other, round.current = some other → other.sessionId = sessionId → other = record)
    (unseen : sessionId ∉ round.visited)
    (quiet : shownPending root coordinate pendingExecution sessionId = none) :
    ∃ refs, timelineRound store root coordinate pendingExecution round =
        (round.took record cutoff refs).climb record
          (((cutoff + 1 : Nat) : Int) - (min round.remaining cutoff : Nat)) ∧
      newestTurns (round.took record cutoff refs).newestFirst =
        newestTurns round.newestFirst ++ (ownTurns store sessionId cutoff).take
        round.remaining := by
  obtain ⟨refs, listed, places⟩ :=
    @pageTurns_none store sessionId cutoff round.remaining timeline named within
  have bounded : ¬(((cutoff + 1 : Nat) : Int) < 1 ∨
      ((store.timelineHead sessionId + (none : Option TimelineExecution).toList.length : Nat) :
        Int) + 1 < (cutoff + 1 : Nat)) := by
    rw [timelineHead, Option.toList_none, length_nil]
    omega
  have from_here : round.sourceBefore.getD (((store.timelineHead sessionId +
      (none : Option TimelineExecution).toList.length : Nat) : Int) + 1) =
        ((cutoff + 1 : Nat) : Int) := before
  have available : (((cutoff + 1 : Nat) : Int) - 1).toNat = cutoff := by omega
  have size : refs.length = min round.remaining cutoff := by
    have lengths := congrArg List.length places
    rwa [length_reverse, length_map, length_take, ownTurns_length timeline within]
      at lengths
  have values : roundTurns store sessionId cutoff
      (((cutoff + 1 : Nat) : Int) - (min round.remaining cutoff : Nat)) (cutoff + 1 : Nat) none =
        .ok refs := by
    rw [roundTurns]
    split
    case isTrue empty =>
      rw [empty, Nat.min_zero] at size
      rw [eq_nil_of_length_eq_zero size]
    case isFalse => exact listed
  refine ⟨refs, ?_, ?_⟩
  · rw [timelineRound, source, refuse_of_not unseen, ok_bind,
      timelineSource_ok stored keyed own known, ok_bind, quiet]
    dsimp only
    rw [from_here, available, refuse_of_not bounded, ok_bind, values, ok_bind, TimelineRound.took,
      size, source]
  · rw [TimelineRound.took]
    dsimp only
    split
    case isTrue empty =>
      rw [empty, ownTurns, take_zero, map_nil, reverse_nil, take_nil,
        append_nil]
    case isFalse => rw [newestTurns_append, newestTurns_single, places]

def Behind (store : ConversationStore) (owner : String) (next : Option Coordinate)
    (left : List TurnPlace) : Prop :=
  match next with
  | none => left = []
  | some (source, before) => left ≠ [] ∧ source ≠ "" ∧
      ∃ (cutoff : Nat) (chain : List (SessionRecord × Nat)), before = ((cutoff + 1 : Nat) : Int) ∧
        Ancestry store owner source cutoff chain ∧ lineageTurns store chain = left

theorem Ancestry.lineage_ne_nil (timeline : NumberedTurns store)
    (ancestry : Ancestry store owner sessionId cutoff chain) (visible : 1 ≤ cutoff) :
    lineageTurns store chain ≠ [] := by
  obtain ⟨record, rest, rfl, _, _, _, within⟩ := ancestry.exists_head
  intro empty
  rw [lineageTurns_cons, append_eq_nil_iff] at empty
  have none := congrArg List.length empty.1
  cases ancestry with
  | first | forked =>
    rw [ownTurns_length timeline within, length_nil] at none
    omega

theorem Ancestry.parent_cases
    (ancestry : Ancestry store owner sessionId cutoff ((record, cutoff) :: rest)) :
    (record.timelineParentSessionId = none ∧ rest = []) ∨
      ∃ (parent : String) (forkTurn : Nat), (record.timelineParentSessionId = some parent ∧
        record.timelineParentTurnSeq = forkTurn) ∧ 1 ≤ forkTurn ∧
          Ancestry store owner parent forkTurn rest := by
  cases ancestry with
  | first _ _ _ root => exact .inl ⟨root, rfl⟩
  | forked _ _ _ fork visible behind => exact .inr ⟨_, _, fork, visible, behind⟩

theorem name_ne_empty (timeline : NumberedTurns store)
    (named : NamedTurns store sessionId)
    (some : 1 ≤ store.turnSequences sessionId) : sessionId ≠ "" := by
  have nonempty : store.turns sessionId ≠ [] := by
    intro none
    have length : (store.turns sessionId).length = store.turnSequences sessionId :=
    timeline.turns_length
    rw [none, length_nil] at length
    omega
  obtain ⟨fact, member⟩ := exists_mem_of_ne_nil _ nonempty
  exact (named fact member).1

theorem nextCoordinate_stopped (timeline : NumberedTurns store) (named : sessionId ≠ "")
    (ancestry : Ancestry store owner sessionId cutoff ((record, cutoff) :: rest))
    (source : round.sourceId = sessionId) (current : round.current = some record)
    (before : round.sourceBefore = some ((cutoff + 1 : Nat) : Int)) :
    ∃ next, nextCoordinate store round = .ok next ∧
      Behind store owner next (lineageTurns store ((record, cutoff) :: rest)) := by
  obtain ⟨_, _, same, keyed, stored, own, within⟩ := ancestry.exists_head
  cases same
  have found : stoppedSession store round = .ok record := by
    have own : (some record).filter (fun held => held.sessionId = round.sourceId) = some record :=
      Option.filter_some_pos (decide_eq_true (keyed.trans source.symm))
    rw [stoppedSession, current, own]
  have next : nextCoordinate store round =
      .ok (if (1 : Int) < (cutoff + 1 : Nat) ∨ record.timelineParentSessionId ≠ none then
        some (sessionId, ((cutoff + 1 : Nat) : Int)) else none) := by
    rw [nextCoordinate, if_neg (source ▸ named), found, ok_bind, before, Option.getD_some, source]
    rfl
  refine ⟨_, next, ?_⟩
  split
  case isTrue more =>
    refine ⟨?_, named, cutoff, _, rfl, ancestry, rfl⟩
    cases more with
    | inl some => exact ancestry.lineage_ne_nil timeline (by omega)
    | inr linked =>
      cases ancestry.parent_cases with
      | inl alone => exact absurd alone.1 linked
      | inr forked =>
        obtain ⟨_, _, _, visible, behind⟩ := forked
        rw [lineageTurns_cons]
        exact append_ne_nil_of_right_ne_nil _ (behind.lineage_ne_nil timeline visible)
  case isFalse done =>
    obtain ⟨none, root⟩ := not_or.mp done
    have all : cutoff = 0 := by omega
    cases ancestry.parent_cases with
    | inl alone =>
      rw [all, alone.2]
      rfl
    | inr forked =>
      obtain ⟨_, _, fork, _, _⟩ := forked
      rw [fork.1] at root
      exact absurd nofun root

def LoopShows (store : ConversationStore) (root : SessionRecord) (coordinate : Option Coordinate)
    (pendingExecution : Option TimelineExecution) (fuel : Nat) (round : TimelineRound)
    (turns : List TurnPlace) : Prop :=
  ∃ result next, timelineLoop store root coordinate pendingExecution fuel round =
      some (.ok result) ∧ nextCoordinate store result = .ok next ∧
    newestTurns result.newestFirst = newestTurns round.newestFirst ++ turns.take round.remaining ∧
    Behind store root.ownerPrincipalId next (turns.drop round.remaining)

structure RoundAt (store : ConversationStore) (round : TimelineRound) (sessionId : String)
    (cutoff : Nat) : Prop where
  source : round.sourceId = sessionId
  before : round.sourceBefore.getD ((store.timelineHead sessionId : Int) + 1) =
    ((cutoff + 1 : Nat) : Int)
  known : ∀ other, round.current = some other → other.sessionId = sessionId →
    store.sessions sessionId = some other
  positive : 0 < round.remaining

section

variable (found : RoundAt store round sessionId cutoff) (timeline : NumberedTurns store)
  (named : NamedTurns store sessionId)
  (ancestry : Ancestry store root.ownerPrincipalId sessionId cutoff ((record, cutoff) :: rest))
  (unseen : sessionId ∉ round.visited)
  (quiet : shownPending root coordinate pendingExecution sessionId = none)
include found timeline named ancestry unseen quiet

theorem RoundAt.round_ok :
    ∃ refs, timelineRound store root coordinate pendingExecution round =
        (round.took record cutoff refs).climb record
          (((cutoff + 1 : Nat) : Int) - (min round.remaining cutoff : Nat)) ∧
      newestTurns (round.took record cutoff refs).newestFirst =
        newestTurns round.newestFirst ++ (ownTurns store sessionId cutoff).take
        round.remaining := by
  obtain ⟨_, _, same, keyed, stored, own, within⟩ := ancestry.exists_head
  cases same
  apply timelineRound_ok timeline named stored keyed own within found.source found.before _ unseen
    quiet
  intro other held same
  exact Option.some.inj ((found.known other held same).symm.trans stored)

theorem RoundAt.loop_inside (inside : round.remaining ≤ cutoff) :
    LoopShows store root coordinate pendingExecution (fuel + 1) round
      (lineageTurns store ((record, cutoff) :: rest)) := by
  obtain ⟨refs, stepped, shown⟩ := found.round_ok timeline named ancestry unseen quiet
  obtain ⟨_, _, same, keyed, _, _, within⟩ := ancestry.exists_head
  cases same
  obtain ⟨_, _, same, shorter⟩ := ancestry.shorten (Nat.sub_le cutoff round.remaining)
  cases same
  have positive := found.positive
  have before : (round.took record cutoff refs).sourceBefore =
      some ((cutoff - round.remaining + 1 : Nat) : Int) := by
    rw [TimelineRound.took, Option.some_inj]
    omega
  have source : (round.took record cutoff refs).sourceId = sessionId := found.source
  obtain ⟨next, coordinate, behind⟩ := nextCoordinate_stopped timeline
    (name_ne_empty timeline named (by omega)) shorter source rfl before
  have enough : round.remaining ≤ (ownTurns store sessionId cutoff).length := by
    rwa [ownTurns_length timeline within]
  have left : (lineageTurns store ((record, cutoff) :: rest)).drop round.remaining =
      lineageTurns store ((record, cutoff - round.remaining) :: rest) := by
    rw [lineageTurns_cons, lineageTurns_cons, keyed, drop_append_of_le_length enough,
      ownTurns_drop timeline within]
  have done : (round.took record cutoff refs).remaining = 0 :=
    Nat.sub_eq_zero_of_le (Nat.le_min.mpr ⟨Nat.le_refl _, inside⟩)
  rw [TimelineRound.climb, if_pos done] at stepped
  refine ⟨round.took record cutoff refs, next, ?_, coordinate, ?_, left ▸ behind⟩
  · rw [timelineLoop, stepped]
  · rw [shown, lineageTurns_cons, keyed, take_append_of_le_length enough]

end

variable {before : Int}

theorem climb_beyond (more : round.remaining ≠ 0) (reached : ¬1 < before) :
    round.climb record before = .ok (match record.timelineParentSessionId with
      | none => ({ round with sourceId := "" }, false)
      | some parent => ({ round with
          sourceId := parent
          sourceBefore := some (record.timelineParentTurnSeq + 1)
          current := none }, true)) := by
  rw [TimelineRound.climb, if_neg more, refuse_of_not reached, ok_bind]
  cases record.timelineParentSessionId <;> rfl

theorem took_positive
    (beyond : cutoff < round.remaining) : 0 < (round.took record cutoff refs).remaining := by
  rw [TimelineRound.took]
  dsimp only
  omega

theorem took_reached (beyond : cutoff < round.remaining) :
    ¬(1 : Int) < ((cutoff + 1 : Nat) : Int) - (min round.remaining cutoff : Nat) := by
  omega

theorem fuel_left (enough : remaining + (if cutoff = 0 then 1 else 0) ≤ fuel + 1)
    (positive : 0 < remaining) : remaining - min remaining cutoff + 0 ≤ fuel := by
  split at enough <;> omega

theorem timelineLoop_ok (timeline : NumberedTurns store)
    (named : ∀ sessionId, NamedTurns store sessionId)
    (ancestry : Ancestry store root.ownerPrincipalId sessionId cutoff chain)
    (found : RoundAt store round sessionId cutoff)
    (unseen : ∀ entry ∈ chain, entry.1.sessionId ∉ round.visited) (quiet : ∀ entry ∈ chain,
      shownPending root coordinate pendingExecution entry.1.sessionId = none)
    (enough : round.remaining + (if cutoff = 0 then 1 else 0) ≤ fuel) :
    LoopShows store root coordinate pendingExecution fuel round (lineageTurns store chain) := by
  induction ancestry generalizing round fuel with
  | @first record cutoff stored own within first =>
    have lineage : Ancestry store root.ownerPrincipalId record.sessionId cutoff
        [(record, cutoff)] := .first stored own within first
    have here := unseen _ mem_cons_self
    have silent := quiet _ mem_cons_self
    cases fuel with
    | zero =>
      have positive := found.positive
      omega
    | succ fuel =>
      by_cases inside : round.remaining ≤ cutoff
      case pos => exact found.loop_inside timeline (named _) lineage here silent inside
      case neg =>
        obtain ⟨refs, stepped, shown⟩ := found.round_ok timeline (named _) lineage here silent
        have more : (round.took record cutoff refs).remaining ≠ 0 :=
          Nat.ne_of_gt (took_positive (Nat.lt_of_not_le inside))
        rw [climb_beyond more (took_reached (Nat.lt_of_not_le inside)), first] at stepped
        have length := ownTurns_length timeline within
        have whole : lineageTurns store [(record, cutoff)] =
            ownTurns store record.sessionId cutoff := flatMap_singleton _ _
        refine ⟨{ round.took record cutoff refs with sourceId := "" }, none, ?_, ?_, ?_, ?_⟩
        · rw [timelineLoop, stepped]
        · rw [nextCoordinate, if_pos rfl]
        · rw [whole]
          exact shown
        · rw [whole]
          exact drop_eq_nil_of_le (by omega)
  | @forked record cutoff forkTurn parent rest stored own within fork visible behind ih =>
    have lineage : Ancestry store root.ownerPrincipalId record.sessionId cutoff
        ((record, cutoff) :: rest) := .forked stored own within fork visible behind
    have here := unseen _ mem_cons_self
    have silent := quiet _ mem_cons_self
    cases fuel with
    | zero =>
      have positive := found.positive
      omega
    | succ fuel =>
      by_cases inside : round.remaining ≤ cutoff
      case pos => exact found.loop_inside timeline (named _) lineage here silent inside
      case neg =>
        obtain ⟨refs, stepped, shown⟩ := found.round_ok timeline (named _) lineage here silent
        have more : 0 < (round.took record cutoff refs).remaining :=
          took_positive (Nat.lt_of_not_le inside)
        rw [climb_beyond (Nat.ne_of_gt more) (took_reached (Nat.lt_of_not_le inside)), fork.1]
          at stepped
        have length := ownTurns_length timeline within
        have left : round.remaining - min round.remaining cutoff =
            round.remaining - cutoff := by omega
        have climbed : RoundAt store { round.took record cutoff refs with
            sourceId := parent
            sourceBefore := some (record.timelineParentTurnSeq + 1)
            current := none } parent forkTurn := by
          refine ⟨rfl, ?_, fun other held _ => absurd held (Option.some_ne_none other).symm, more⟩
          rw [fork.2]
          rfl
        have apart := lineage.nodup
        rw [map_cons, nodup_cons] at apart
        have unvisited : ∀ entry ∈ rest, entry.1.sessionId ∉ round.sourceId :: round.visited := by
          intro entry member visited
          cases mem_cons.mp visited with
          | inl same =>
            have member := mem_map_of_mem (f := (·.1.sessionId)) member
            rw [same, found.source] at member
            exact apart.1 member
          | inr earlier => exact unseen entry (mem_cons_of_mem _ member) earlier
        have less : round.remaining - min round.remaining cutoff +
            (if forkTurn = 0 then 1 else 0) ≤ fuel := by
          rw [if_neg (Nat.ne_of_gt visible)]
          exact fuel_left enough found.positive
        obtain ⟨result, next, looped, coordinate, turns, after⟩ := ih climbed unvisited
          (fun entry member => quiet entry (mem_cons_of_mem _ member)) less
        refine ⟨result, next, ?_, coordinate, ?_, ?_⟩
        · rw [timelineLoop, stepped]
          exact looped
        · rw [turns, lineageTurns_cons, take_append]
          change newestTurns (round.took record cutoff refs).newestFirst ++
            (lineageTurns store rest).take (round.remaining - min round.remaining cutoff) = _
          rw [shown, left, append_assoc, length]
        · rw [lineageTurns_cons, drop_append, length,
            drop_eq_nil_of_le (by omega), nil_append, ← left]
          exact after

def pendingPlace (store : ConversationStore) (sessionId : String)
    (execution : TimelineExecution) : TurnPlace :=
  ⟨sessionId, store.turnSequences sessionId + 1, execution.executionId⟩

def firstRound (root : SessionRecord) (limit : Nat) : TimelineRound where
  remaining := limit
  sourceId := root.sessionId
  sourceBefore := none
  current := some root

/-- The first round with a pending turn, up to what it does with the parent. -/
def pendingRound (root : SessionRecord) (head limit : Nat) (refs : List SessionTurnRef) :
    TimelineRound where
  remaining := limit - min limit (head + 1)
  newestFirst := [(root, refs)]
  visited := [root.sessionId]
  sourceId := root.sessionId
  sourceBefore := some (((head + 2 : Nat) : Int) - (min limit (head + 1) : Nat))
  current := some root

variable {execution : TimelineExecution} {limit head : Nat}

theorem pendingRound_ok (timeline : NumberedTurns store)
    (named : NamedTurns store root.sessionId)
    (present : root.sessionId ≠ "" ∧ execution.executionId ≠ "")
    (fresh : ∀ fact ∈ store.turns root.sessionId, fact.data ≠ execution.executionId)
    (whole : head = store.turnSequences root.sessionId) (positive : 0 < limit) :
    ∃ refs, timelineRound store root none (some execution) (firstRound root limit) =
        (pendingRound root head limit refs).climb root
          (((head + 2 : Nat) : Int) - (min limit (head + 1) : Nat)) ∧
      newestTurns (pendingRound root head limit refs).newestFirst =
        (pendingPlace store root.sessionId execution ::
          ownTurns store root.sessionId head).take limit := by
  obtain ⟨refs, listed, places⟩ := @pageTurns_some store root.sessionId head
    (min limit (head + 1) - 1) execution timeline named present fresh whole (by omega)
  have count : min limit (head + 1) - 1 + 1 = min limit (head + 1) := by omega
  rw [count] at listed
  have shown : shownPending root none (some execution) root.sessionId = some execution :=
    if_pos ⟨rfl, rfl⟩
  have display : store.timelineHead root.sessionId + (some execution).toList.length = head + 1 := by
    rw [timelineHead, whole]
    rfl
  have held : timelineSource store root root.sessionId (some root) = .ok root := by
    have own : (some root).filter (fun record => record.sessionId = root.sessionId) = some root :=
      Option.filter_some_pos (decide_eq_true rfl)
    rw [timelineSource, own]
  have bounded : ¬(((head + 1 : Nat) : Int) + 1 < 1 ∨
      ((head + 1 : Nat) : Int) + 1 < ((head + 1 : Nat) : Int) + 1) := by omega
  have size : refs.length = min limit (head + 1) := by
    have lengths := congrArg List.length places
    rw [length_reverse, length_map, length_cons, length_take,
      ownTurns_length timeline (le_of_eq whole)] at lengths
    omega
  have available : (((head + 1 : Nat) : Int) + 1 - 1).toNat = head + 1 := by omega
  have unvisited : root.sessionId ∉ ([] : List String) := not_mem_nil
  refine ⟨refs, ?_, ?_⟩
  · rw [timelineRound, firstRound]
    dsimp only
    rw [refuse_of_not unvisited, ok_bind, held, ok_bind, shown, display, Option.getD_none,
      refuse_of_not bounded, ok_bind, available, roundTurns, if_neg (Nat.succ_ne_zero head)]
    rw [show ((head + 1 : Nat) : Int) + 1 = (head + 2 : Nat) by omega, listed, ok_bind, size,
      if_neg (Nat.succ_ne_zero head)]
    rfl
  · have some : limit = limit - 1 + 1 := by omega
    rw [pendingRound, newestTurns_single, places, some, take_succ_cons, pendingPlace, whole]
    congr 1
    have length := @ownTurns_length store root.sessionId head timeline (le_of_eq whole)
    rw [← whole, take_eq_take_iff, length]
    omega

theorem pendingLoop_ok (timeline : NumberedTurns store)
    (named : ∀ sessionId, NamedTurns store sessionId)
    (ancestry : Ancestry store root.ownerPrincipalId root.sessionId head ((root, head) :: rest))
    (present : root.sessionId ≠ "" ∧ execution.executionId ≠ "")
    (fresh : ∀ fact ∈ store.turns root.sessionId, fact.data ≠ execution.executionId)
    (whole : head = store.turnSequences root.sessionId) (positive : 0 < limit) :
    LoopShows store root none (some execution) (limit + 1) (firstRound root limit)
      (pendingPlace store root.sessionId execution ::
        lineageTurns store ((root, head) :: rest)) := by
  obtain ⟨refs, stepped, shown⟩ := pendingRound_ok timeline (named _) present fresh whole positive
  have length := @ownTurns_length store root.sessionId head timeline (le_of_eq whole)
  have split : pendingPlace store root.sessionId execution ::
      lineageTurns store ((root, head) :: rest) =
        (pendingPlace store root.sessionId execution :: ownTurns store root.sessionId head) ++
          lineageTurns store rest := by
    rw [lineageTurns_cons, cons_append]
  by_cases inside : limit ≤ head + 1
  case pos =>
    obtain ⟨_, _, same, shorter⟩ := ancestry.shorten (show head + 1 - limit ≤ head by omega)
    cases same
    have before : (pendingRound root head limit refs).sourceBefore =
        some ((head + 1 - limit + 1 : Nat) : Int) := by
      rw [pendingRound, Option.some_inj]
      omega
    have source : (pendingRound root head limit refs).sourceId = root.sessionId := rfl
    obtain ⟨next, coordinate, behind⟩ :=
      nextCoordinate_stopped timeline present.1 shorter source rfl before
    have done : (pendingRound root head limit refs).remaining = 0 :=
      Nat.sub_eq_zero_of_le (Nat.le_min.mpr ⟨Nat.le_refl _, inside⟩)
    rw [TimelineRound.climb, if_pos done] at stepped
    have enough : limit ≤ (pendingPlace store root.sessionId execution ::
        ownTurns store root.sessionId head).length := by
      rwa [length_cons, length]
    have some : limit = limit - 1 + 1 := by omega
    have left : (pendingPlace store root.sessionId execution ::
        lineageTurns store ((root, head) :: rest)).drop limit =
          lineageTurns store ((root, head + 1 - limit) :: rest) := by
      rw [split, drop_append_of_le_length enough, some, drop_succ_cons,
        ownTurns_drop timeline (le_of_eq whole), lineageTurns_cons]
      congr 2
      omega
    refine ⟨pendingRound root head limit refs, next, ?_, coordinate, ?_, left ▸ behind⟩
    · rw [timelineLoop, stepped]
    · change _ = [] ++ take limit _
      rw [shown, split, nil_append, take_append_of_le_length enough]
  case neg =>
    have more : (pendingRound root head limit refs).remaining ≠ 0 := by
      rw [pendingRound]
      dsimp only
      omega
    have reached : ¬(1 : Int) < ((head + 2 : Nat) : Int) - (min limit (head + 1) : Nat) := by
      omega
    rw [climb_beyond more reached] at stepped
    have size : (pendingPlace store root.sessionId execution ::
        ownTurns store root.sessionId head).length = head + 1 := by
      rw [length_cons, length]
    have left : limit - min limit (head + 1) = limit - (head + 1) := by omega
    have apart := ancestry.nodup
    rw [map_cons, nodup_cons] at apart
    cases ancestry.parent_cases with
    | inl alone =>
      obtain ⟨first, rfl⟩ := alone
      rw [first] at stepped
      refine ⟨{ pendingRound root head limit refs with sourceId := "" }, none, ?_, ?_, ?_, ?_⟩
      · rw [timelineLoop, stepped]
      · rw [nextCoordinate, if_pos rfl]
      · change _ = [] ++ take limit _
        rw [split, lineageTurns, flatMap_nil, append_nil, nil_append]
        exact shown
      · rw [split, lineageTurns, flatMap_nil, append_nil]
        have short : (pendingPlace store root.sessionId execution ::
            ownTurns store root.sessionId head).length ≤ limit := by omega
        exact drop_eq_nil_of_le short
    | inr forked =>
      obtain ⟨parent, forkTurn, fork, visible, behind⟩ := forked
      rw [fork.1] at stepped
      have climbed : RoundAt store { pendingRound root head limit refs with
          sourceId := parent
          sourceBefore := some (root.timelineParentTurnSeq + 1)
          current := none } parent forkTurn := by
        refine ⟨rfl, ?_, fun other held _ => absurd held (Option.some_ne_none other).symm,
          Nat.pos_of_ne_zero more⟩
        rw [fork.2]
        rfl
      have others : ∀ entry ∈ rest, entry.1.sessionId ≠ root.sessionId := by
        intro entry member same
        exact apart.1 (same ▸ mem_map_of_mem (f := (·.1.sessionId)) member)
      have less : limit - min limit (head + 1) + (if forkTurn = 0 then 1 else 0) ≤ limit := by
        rw [if_neg (Nat.ne_of_gt visible)]
        omega
      obtain ⟨result, next, looped, coordinate, turns, after⟩ := timelineLoop_ok timeline named
        behind climbed (fun entry member => by
          change entry.1.sessionId ∉ [root.sessionId]
          rw [mem_singleton]
          exact others entry member)
        (fun entry member => if_neg fun shown => others entry member shown.2) less
      refine ⟨result, next, ?_, coordinate, ?_, ?_⟩
      · rw [timelineLoop, stepped]
        exact looped
      · change _ = [] ++ take limit _
        rw [turns, split, nil_append, take_append, size]
        change newestTurns (pendingRound root head limit refs).newestFirst ++
          (lineageTurns store rest).take (limit - min limit (head + 1)) = _
        rw [shown, left]
      · change Behind store _ next (drop limit _)
        have short : (pendingPlace store root.sessionId execution ::
            ownTurns store root.sessionId head).length ≤ limit := by omega
        rw [split, drop_append, size, drop_eq_nil_of_le short, nil_append, ← left]
        exact after

theorem newestTurns_reverse :
    ((blocks.reverse.flatMap Prod.snd).map (·.place)).reverse = newestTurns blocks := by
  induction blocks with
  | nil => rfl
  | cons block blocks ih =>
    rw [reverse_cons, flatMap_append, map_append, reverse_append, ih,
      flatMap_singleton]
    rfl

/-- A page shows the next turns and leaves the others behind its coordinate. -/
def BlocksShow (store : ConversationStore) (root : SessionRecord) (coordinate : Option Coordinate)
    (pendingExecution : Option TimelineExecution) (limit : Nat) (turns : List TurnPlace) : Prop :=
  ∃ blocks next, timelineBlocks store root coordinate pendingExecution limit = .ok (blocks, next) ∧
    ((blocks.flatMap Prod.snd).map (·.place)).reverse = turns.take limit ∧
    Behind store root.ownerPrincipalId next (turns.drop limit)

theorem blocksShow_of_loop {turns : List TurnPlace}
    (shows : LoopShows store root coordinate pendingExecution (limit + 1)
      { remaining := limit
        sourceId := coordinate.elim root.sessionId Prod.fst
        sourceBefore := coordinate.map Prod.snd
        current := if coordinate.elim root.sessionId Prod.fst = root.sessionId then some root
          else none } turns) : BlocksShow store root coordinate pendingExecution limit turns := by
  obtain ⟨result, next, looped, behind, shown, left⟩ := shows
  refine ⟨result.newestFirst.reverse, next, ?_, ?_, left⟩
  · rw [timelineBlocks, looped, Option.getD_some, ok_bind, behind]
    rfl
  · rw [newestTurns_reverse, shown]
    rfl

section

variable (timeline : NumberedTurns store) (named : ∀ sessionId, NamedTurns store sessionId)
  (stored : store.sessions root.sessionId = some root)
include timeline named stored

theorem timelineBlocks_ok
    (ancestry : Ancestry store root.ownerPrincipalId sessionId cutoff chain)
    (place : before = ((cutoff + 1 : Nat) : Int)) (positive : 0 < limit) :
    BlocksShow store root (some (sessionId, before)) pendingExecution limit
      (lineageTurns store chain) := by
  apply blocksShow_of_loop
  apply timelineLoop_ok timeline named ancestry
  · refine ⟨rfl, ?_, ?_, positive⟩
    · exact place
    · intro other held same
      by_cases own : sessionId = root.sessionId
      case pos =>
        cases held.symm.trans (if_pos own)
        exact own ▸ stored
      case neg => cases held.symm.trans (if_neg own)
  · exact fun _ _ => not_mem_nil
  · exact fun _ _ => if_neg fun shown => nomatch shown.1
  · dsimp only
    split <;> omega

theorem firstBlocks_ok (nonempty : root.sessionId ≠ "")
    (ancestry : Ancestry store root.ownerPrincipalId root.sessionId
      (store.turnSequences root.sessionId) chain)
    (waiting : ∀ execution ∈ pendingExecution, execution.executionId ≠ "" ∧
      ∀ fact ∈ store.turns root.sessionId, fact.data ≠ execution.executionId)
    (positive : 0 < limit) : BlocksShow store root none pendingExecution limit
      (pendingExecution.toList.map (pendingPlace store root.sessionId) ++
        lineageTurns store chain) := by
  apply blocksShow_of_loop
  have current : (if (none : Option Coordinate).elim root.sessionId Prod.fst = root.sessionId then
      some root else none) = some root := if_pos rfl
  rw [current]
  cases pendingExecution with
  | none =>
    apply timelineLoop_ok timeline named ancestry
    · refine ⟨rfl, rfl, ?_, positive⟩
      intro other held same
      cases held
      exact stored
    · exact fun _ _ => not_mem_nil
    · intro entry _
      rw [shownPending]
      split <;> rfl
    · dsimp only
      split <;> omega
  | some execution =>
    obtain ⟨record, rest, rfl, _, same, _, _⟩ := ancestry.exists_head
    cases stored.symm.trans same
    obtain ⟨valid, fresh⟩ := waiting execution rfl
    exact pendingLoop_ok timeline named ancestry ⟨nonempty, valid⟩ fresh rfl positive

end

end Linktools.Conversation
