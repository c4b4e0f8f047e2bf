import Linktools.Conversation.TimelineRounds
import Linktools.Library.Paging

namespace Linktools.Conversation

open Linktools.Core Library Transcript TimelineReader Function List

namespace HmacCursorSigner

variable {Secret Signature : Type} [DecidableEq Signature]
  {signer : HmacCursorSigner Secret Signature} {payload : CursorPayload} {now : Nat}

theorem decode_encode (fresh : now ≤ payload.expiresAt) :
    signer.decode now (signer.encode payload) = .ok payload := by
  have key : signer.key (signer.encode payload).keyId = some signer.currentKey := if_pos rfl
  have signed : ¬(signer.encode payload).signature ≠
      signer.hmac signer.currentKey (signer.encode payload).payload
        (signer.encode payload).keyId := not_not.mpr rfl
  have unexpired : ¬(signer.encode payload).payload.expiresAt < now := Nat.not_lt_of_le fresh
  rw [decode, key, orRaise, ok_bind, refuse_of_not signed, ok_bind, refuse_of_not unexpired]
  rfl

theorem decodeCursor_encode (fresh : now ≤ payload.expiresAt) :
    signer.decodeCursor now (signer.encode payload) payload.tenantId payload.resourceKind
      payload.filterDigest = .ok payload := by
  have own : ¬(payload.tenantId ≠ payload.tenantId ∨ payload.resourceKind ≠ payload.resourceKind ∨
      payload.filterDigest ≠ payload.filterDigest) := by
    simp only [ne_eq, not_true_eq_false, or_self, not_false_eq_true]
  rw [decodeCursor, decode_encode fresh, ok_bind, refuse_of_not own]
  rfl

end HmacCursorSigner

variable {Secret Signature Message Item : Type} [DecidableEq Signature]
  {reader : TimelineReader Secret Signature Message Item}
  {request later : TimelineRequest} {sessionId : String} {root record : SessionRecord}
  {limit : Int} {token : CursorToken Signature} {turns : List TurnPlace}

theorem decode_timelineCursor
    (signed : reader.timelineCursor issued sessionId (source, before) = .ok token)
    (fresh : now ≤ issued + cursorTtlSeconds) (valid : source ≠ "" ∧ 1 ≤ before) :
    reader.decodeTimelineCursor now sessionId (some token) = .ok (some (source, before)) := by
  obtain ⟨_, _, made⟩ := bind_eq_ok.mp signed
  cases made
  have sound : ¬((0 : Nat) ≠ 0 ∨ source = "" ∨ before < 1) := by
    rw [not_or, not_or]
    exact ⟨not_not.mpr rfl, valid.1, by omega⟩
  rw [decodeTimelineCursor]
  refine bind_eq_ok.mpr ⟨_, HmacCursorSigner.decodeCursor_encode fresh, ?_⟩
  dsimp only
  rw [refuse_of_not sound]
  rfl

structure Follows (request later : TimelineRequest) : Prop where
  grows : TimelineGrows request.store later.store
  prompt : later.now ≤ request.now + cursorTtlSeconds

structure SoundRows (store : ConversationStore) : Prop where
  timeline : NumberedTurns store
  named : ∀ sessionId, NamedTurns store sessionId

/-- The cursor of a page stands for the turns that are left behind it. -/
def Leaves (reader : TimelineReader Secret Signature Message Item) (sessionId owner : String)
    (request : TimelineRequest) (token : CursorToken Signature) (left : List TurnPlace) : Prop :=
  SoundRows request.store ∧
    (∃ root, request.store.sessions sessionId = some root ∧ root.sessionId = sessionId ∧
      root.ownerPrincipalId = owner) ∧
    ∃ coordinate, reader.timelineCursor request.now sessionId coordinate = .ok token ∧
      Behind request.store owner (some coordinate) left

def BlocksFound (reader : TimelineReader Secret Signature Message Item) (sessionId owner : String)
    (request : TimelineRequest) (cursor : Option (CursorToken Signature)) (limit : Int)
    (turns : List TurnPlace) : Prop :=
  SoundRows request.store ∧ ∃ root blocks next,
    reader.readBlocks request sessionId cursor limit = .ok (root, blocks, next) ∧
    request.store.sessions sessionId = some root ∧ root.sessionId = sessionId ∧
    root.ownerPrincipalId = owner ∧
    ((blocks.flatMap Prod.snd).map (·.place)).reverse = turns.take limit.toNat ∧
    Behind request.store owner next (turns.drop limit.toNat)

variable {cursor : Option (CursorToken Signature)}

theorem readBlocks_ok
    (rows : SoundRows request.store) (stored : request.store.sessions sessionId = some root)
    (keyed : root.sessionId = sessionId) (accepted : 1 ≤ limit ∧ limit ≤ 200)
    (decoded : reader.decodeTimelineCursor request.now sessionId cursor = .ok coordinate)
    (shows : BlocksShow request.store root coordinate (observedPending request root) limit.toNat
      turns) : BlocksFound reader sessionId root.ownerPrincipalId request cursor limit turns := by
  obtain ⟨blocks, next, found, shown, behind⟩ := shows
  refine ⟨rows, root, blocks, next, ?_, stored, keyed, rfl, shown, behind⟩
  have bounded : ¬(limit < 1 ∨ 200 < limit) := by omega
  rw [readBlocks, stored, orRaise, ok_bind, refuse_of_not (not_not.mpr keyed),
    ok_bind, validatePageLimit, refuse_of_not bounded, ok_bind]
  change (reader.decodeTimelineCursor request.now sessionId cursor >>= _) = _
  rw [decoded, ok_bind, found]
  rfl

variable {owner : String}

theorem Leaves.blocks_found (leaves : Leaves reader sessionId owner request token left)
    (follows : Follows request later) (accepted : 1 ≤ limit ∧ limit ≤ 200) :
    BlocksFound reader sessionId owner later (some token) limit left := by
  obtain ⟨rows, ⟨root, stored, keyed, rfl⟩, ⟨source, before⟩, signed, _, nonempty, cutoff, chain,
    place, ancestry, shown⟩ := leaves
  obtain ⟨next, kept, same, sameOwner, _, _⟩ := follows.grows.sessions _ _ stored
  obtain ⟨chain', lineage, unchanged⟩ := ancestry.grows follows.grows rows.timeline
  have valid : source ≠ "" ∧ 1 ≤ before := ⟨nonempty, by omega⟩
  have decoded := decode_timelineCursor signed follows.prompt valid
  have soundRows : SoundRows later.store := ⟨follows.grows.timeline, follows.grows.named⟩
  rw [← sameOwner] at lineage ⊢
  apply readBlocks_ok soundRows kept (same.trans keyed) accepted decoded
  rw [← shown, ← unchanged]
  apply timelineBlocks_ok soundRows.timeline soundRows.named _ lineage place (by omega)
  rw [same, keyed]
  exact kept

def TimelineReader.fetch (reader : TimelineReader Secret Signature Message Item)
    (sessionId : String) (limit : Int) (request : TimelineRequest)
    (cursor : Option (CursorToken Signature)) :
    Except Raised (List (SessionTurn Item) × Option (CursorToken Signature)) := do
  let page ← reader.projectSessionTimeline request sessionId cursor limit
  return (page.items.reverse, page.nextCursor)

/-- The bodies of the page's turns load: the commits of its blocks, the executions that have
none, the messages of the blocks, and the turns themselves. -/
def BodiesLoad (reader : TimelineReader Secret Signature Message Item) (sessionId : String)
    (request : TimelineRequest) (cursor : Option (CursorToken Signature)) (limit : Int) : Prop :=
  ∃ root blocks next commits executions,
    reader.readBlocks request sessionId cursor limit = .ok (root, blocks, next) ∧
    blocks.mapM (blockCommits request.store) = .ok commits ∧
    executionRecords request (if cursor = none then observedPending request root else none) blocks
      commits.flatten = .ok executions ∧
    (blocks.flatMap Prod.snd ≠ [] → ∃ loaded turns,
      (blocks.mapM fun block => do
        let messages ← reader.blockMessages commits.flatten block
        return (block.1.sessionId, messages)) = .ok loaded ∧
      (blocks.flatMap Prod.snd).mapM (fun ref =>
        reader.projectTurn ⟨root, blocks, next, executions, commits.flatten⟩
          (fun source => (loaded.lookup source).getD ([], 0)) ref) = .ok turns)

theorem fetch_returns_iff (tenant : reader.repository.tenantId ≠ "") :
    (∃ page, reader.fetch sessionId limit request cursor = .ok page) ↔
      BodiesLoad reader sessionId request cursor limit := by
  have signs : ∀ next, ∃ token, reader.cursorBehind request.now sessionId next = .ok token := by
    intro next
    cases next with
    | none => exact ⟨none, rfl⟩
    | some coordinate =>
      rw [cursorBehind, timelineCursor, HmacCursorSigner.encodeCursor, refuse_of_not tenant]
      exact ⟨_, rfl⟩
  simp only [fetch, projectSessionTimeline, captureSessionTimeline, bind_eq_ok, pure_eq_ok]
  constructor
  · rintro ⟨_, page, ⟨state, ⟨⟨root, blocks, next⟩, read, commits, committed, executions, recorded,
      rfl⟩, projected⟩, _⟩
    refine ⟨root, blocks, next, commits, executions, read, committed, recorded, fun shown => ?_⟩
    rw [projectCapturedSessionTimeline, if_neg shown] at projected
    obtain ⟨loaded, loads, projected⟩ := bind_eq_ok.mp projected
    obtain ⟨turns, mapped, _⟩ := bind_eq_ok.mp projected
    exact ⟨loaded, turns, loads, mapped⟩
  · rintro ⟨root, blocks, next, commits, executions, read, committed, recorded, loads⟩
    have projects : ∃ page, reader.projectCapturedSessionTimeline
        ⟨root, blocks, next, executions, commits.flatten⟩ request.now sessionId = .ok page := by
      rw [projectCapturedSessionTimeline]
      by_cases shown : blocks.flatMap Prod.snd = []
      case pos => exact ⟨_, if_pos shown⟩
      case neg =>
        obtain ⟨loaded, turns, loaded_ok, mapped⟩ := loads shown
        obtain ⟨token, signed⟩ := signs next
        refine ⟨⟨turns, token⟩, ?_⟩
        rw [if_neg shown, loaded_ok, ok_bind, mapped, ok_bind, signed]
        rfl
    obtain ⟨page, projected⟩ := projects
    exact ⟨_, page, ⟨_, ⟨_, read, commits, committed, executions, recorded, rfl⟩, projected⟩, rfl⟩

def ShowsTurn (place : TurnPlace) (turn : SessionTurn Item) : Prop :=
  turn.executionId = place.executionId

variable {state : SessionTimelineCapture}

omit [DecidableEq Signature] in
theorem projectTurn_executionId (projected : reader.projectTurn state messages ref = .ok turn) :
    turn.executionId = ref.executionId := by
  rw [projectTurn] at projected
  split at projected
  case h_1 commit found =>
    rw [committedTurn] at projected
    obtain ⟨_, _, projected⟩ := bind_eq_ok.mp projected
    obtain ⟨_, _, projected⟩ := bind_eq_ok.mp projected
    obtain ⟨_, _, projected⟩ := bind_eq_ok.mp projected
    cases projected
    rfl
  case h_2 =>
    rw [admittedTurn] at projected
    obtain ⟨_, _, projected⟩ := bind_eq_ok.mp projected
    obtain ⟨_, _, projected⟩ := bind_eq_ok.mp projected
    obtain ⟨_, _, projected⟩ := bind_eq_ok.mp projected
    obtain ⟨_, _, projected⟩ := bind_eq_ok.mp projected
    cases projected
    rfl

variable {cutoff now : Nat}

omit [DecidableEq Signature] in
theorem projected_turns
    (projected : reader.projectCapturedSessionTimeline state now sessionId = .ok page) :
    List.Forall₂ (fun ref turn => turn.executionId = ref.executionId)
        (state.blocks.flatMap Prod.snd) page.items ∧
      ((state.blocks.flatMap Prod.snd = [] ∧ page.nextCursor = none) ∨
        match state.nextCoordinate with
        | none => page.nextCursor = none
        | some coordinate => ∃ token, page.nextCursor = some token ∧
          reader.timelineCursor now sessionId coordinate = .ok token) := by
  rw [projectCapturedSessionTimeline] at projected
  by_cases empty : state.blocks.flatMap Prod.snd = []
  case pos =>
    rw [if_pos empty] at projected
    cases projected
    rw [empty]
    exact ⟨.nil, .inl ⟨rfl, rfl⟩⟩
  case neg =>
    rw [if_neg empty] at projected
    obtain ⟨loaded, _, projected⟩ := bind_eq_ok.mp projected
    obtain ⟨turns, mapped, projected⟩ := bind_eq_ok.mp projected
    have shown := (mapM_eq_ok.mp mapped).imp fun _ _ => projectTurn_executionId
    obtain ⟨cursor, signed, projected⟩ := bind_eq_ok.mp projected
    cases projected
    refine ⟨shown, .inr ?_⟩
    cases next : state.nextCoordinate with
    | none =>
      rw [next] at signed
      cases signed
      rfl
    | some coordinate =>
      rw [next] at signed
      obtain ⟨token, made, rfl⟩ := map_eq_ok.mp signed
      exact ⟨token, rfl, made⟩

theorem captured_blocks
    (captured : reader.captureSessionTimeline request sessionId cursor limit = .ok state) :
    reader.readBlocks request sessionId cursor limit =
      .ok (state.root, state.blocks, state.nextCoordinate) := by
  rw [captureSessionTimeline] at captured
  obtain ⟨⟨root, blocks, next⟩, read, captured⟩ := bind_eq_ok.mp captured
  obtain ⟨_, _, captured⟩ := bind_eq_ok.mp captured
  obtain ⟨_, _, captured⟩ := bind_eq_ok.mp captured
  cases captured
  exact read

theorem BlocksFound.page {cursor next : Option (CursorToken Signature)}
    {items : List (SessionTurn Item)}
    (found : BlocksFound reader sessionId owner request cursor limit turns)
    (accepted : 1 ≤ limit ∧ limit ≤ 200)
    (fetched : reader.fetch sessionId limit request cursor = .ok (items, next)) :
    List.Forall₂ ShowsTurn (turns.take limit.toNat) items ∧
      (next = none ∧ turns.length ≤ limit.toNat ∨ ∃ token, next = some token ∧
        limit.toNat < turns.length ∧
        Leaves reader sessionId owner request token (turns.drop limit.toNat)) := by
  obtain ⟨rows, root, blocks, coordinate, read, stored, keyed, own, shown, behind⟩ := found
  obtain ⟨page, projected, made⟩ := bind_eq_ok.mp fetched
  cases made
  obtain ⟨state, captured, projected⟩ := bind_eq_ok.mp projected
  cases read.symm.trans (captured_blocks captured)
  obtain ⟨same, cursor⟩ := projected_turns projected
  have places : List.Forall₂ ShowsTurn ((state.blocks.flatMap Prod.snd).map (·.place))
      page.items := by
    rw [forall₂_map_left_iff]
    exact same
  refine ⟨?_, ?_⟩
  · rw [← shown]
    exact rel_reverse places
  · have positive : 0 < limit.toNat := by omega
    cases cursor with
    | inl empty =>
      rw [empty.1, map_nil, reverse_nil] at shown
      have none : turns = [] := by
        cases turns with
        | nil => rfl
        | cons =>
          have length := congrArg List.length shown
          rw [length_nil, length_take, length_cons] at length
          omega
      rw [none]
      exact .inl ⟨empty.2, Nat.zero_le _⟩
    | inr cursor =>
      cases last : state.nextCoordinate with
      | none =>
        rw [last] at cursor behind
        exact .inl ⟨cursor, drop_eq_nil_iff.mp behind⟩
      | some coordinate =>
        rw [last] at cursor behind
        obtain ⟨token, given, signed⟩ := cursor
        refine .inr ⟨token, given, ?_, rows, ⟨_, stored, keyed, own⟩, coordinate, signed, behind⟩
        exact Nat.lt_of_not_le fun short => behind.1 (drop_eq_nil_of_le short)

/-- All turns of a session's lineage, the newest first, with the pending one before them. -/
def timelineListing (request : TimelineRequest) (root : SessionRecord)
    (chain : List (SessionRecord × Nat)) : List TurnPlace :=
  (observedPending request root).toList.map
    (pendingPlace request.store root.sessionId) ++ lineageTurns request.store chain

theorem ownTurns_nodup (timeline : NumberedTurns store) :
    (ownTurns store sessionId cutoff).Nodup ∧
      ∀ place ∈ ownTurns store sessionId cutoff, place.sessionId = sessionId ∧
        place.turnSeq ≤ store.turnSequences sessionId := by
  have sequences := timeline.sequences sessionId
  constructor
  · rw [ownTurns, nodup_reverse]
    apply List.Nodup.of_map TurnPlace.turnSeq
    rw [map_map]
    change (((store.turns sessionId).take cutoff).map StoredFact.sequence).Nodup
    rw [map_take, sequences]
    exact (nodup_range').sublist (take_sublist _ _)
  · intro place member
    rw [ownTurns, mem_reverse] at member
    obtain ⟨fact, stored, rfl⟩ := mem_map.mp member
    have bounds := sequence_of_mem sequences (mem_of_mem_take stored)
    refine ⟨rfl, ?_⟩
    change fact.sequence ≤ _
    omega

theorem timelineListing_nodup (timeline : NumberedTurns request.store)
    (ancestry : Ancestry request.store owner root.sessionId cutoff chain) :
    (timelineListing request root chain).Nodup := by
  have own : (lineageTurns request.store chain).Nodup := by
    rw [lineageTurns, nodup_flatMap]
    refine ⟨fun entry _ => (ownTurns_nodup timeline).1, ?_⟩
    have apart := pairwise_map.mp ancestry.nodup
    refine apart.imp fun different place left right => different ?_
    exact ((ownTurns_nodup timeline).2 place left).1.symm.trans
      ((ownTurns_nodup timeline).2 place right).1
  rw [timelineListing]
  cases observedPending request root with
  | none => exact own
  | some execution =>
    refine nodup_cons.mpr ⟨fun member => ?_, own⟩
    obtain ⟨entry, _, listed⟩ := mem_flatMap.mp member
    obtain ⟨same, bounded⟩ := (ownTurns_nodup timeline).2 _ listed
    rw [← same] at bounded
    exact absurd bounded (Nat.not_succ_le_self _)

def SessionRecord.links (record : SessionRecord) : String × String × Option String × Int :=
  (record.sessionId, record.ownerPrincipalId, record.timelineParentSessionId,
    record.timelineParentTurnSeq)

def KeepsLinks (store after : ConversationStore) : Prop :=
  ∀ id, (after.sessions id).map SessionRecord.links = (store.sessions id).map SessionRecord.links

theorem SessionRecord.links_eq {record next : SessionRecord} (same : next.links = record.links) :
    next.sessionId = record.sessionId ∧ next.ownerPrincipalId = record.ownerPrincipalId ∧
      next.timelineParentSessionId = record.timelineParentSessionId ∧
      next.timelineParentTurnSeq = record.timelineParentTurnSeq := by
  simp only [links, Prod.mk.injEq] at same
  exact same

section Admissions

variable {store after : ConversationStore} {executionId : String}

theorem TimelineForest.adds (forest : TimelineForest store)
    (adds : AddsTurn store after sessionId executionId) (links : KeepsLinks store after)
    (nonempty : sessionId ≠ "" ∧ executionId ≠ "") :
    TimelineForest after ∧ TimelineGrows store after := by
  have timeline : NumberedTurns after := forest.timeline.adds adds
  have named : ∀ id, ∀ fact ∈ after.turns id, id ≠ "" ∧ fact.data ≠ "" := by
    intro id fact member
    rw [adds.turns] at member
    by_cases own : id = sessionId
    case pos =>
      rw [own, update_self, mem_append, mem_singleton] at member
      cases member with
      | inl earlier => exact own ▸ forest.named sessionId fact earlier
      | inr added =>
        rw [own, added]
        exact nonempty
    case neg =>
      rw [update_of_ne own] at member
      exact forest.named id fact member
  have grows : TimelineGrows store after := by
    refine ⟨timeline, named, ?_, ?_⟩
    · intro id
      rw [adds.turns]
      by_cases own : id = sessionId
      case pos =>
        rw [own, update_self]
        exact prefix_append _ _
      case neg => simp only [update_of_ne own, prefix_rfl]
    · intro id record stored
      have same := links id
      rw [stored, Option.map_some] at same
      obtain ⟨next, found, linked⟩ := Option.map_eq_some_iff.mp same
      exact ⟨next, found, SessionRecord.links_eq linked⟩
  have backward : ∀ id next, after.sessions id = some next → ∃ record,
      store.sessions id = some record ∧ next.sessionId = record.sessionId ∧
      next.ownerPrincipalId = record.ownerPrincipalId ∧
      next.timelineParentSessionId = record.timelineParentSessionId ∧
      next.timelineParentTurnSeq = record.timelineParentTurnSeq := by
    intro id next found
    have same := (links id).symm
    rw [found, Option.map_some] at same
    obtain ⟨record, stored, linked⟩ := Option.map_eq_some_iff.mp same
    exact ⟨record, stored, SessionRecord.links_eq linked.symm⟩
  refine ⟨⟨timeline, named, ?_, ?_, ?_⟩, grows⟩
  · intro id next found
    obtain ⟨record, stored, same, _⟩ := backward id next found
    rw [same]
    exact forest.keyed id record stored
  · intro id next found parent fork
    obtain ⟨record, stored, _, owner, link, forkTurn⟩ := backward id next found
    obtain ⟨source, parentStored, same, visible, within⟩ :=
      forest.linked id record stored parent (link.symm.trans fork)
    obtain ⟨moved, kept, _, sameOwner, _⟩ := grows.sessions parent source parentStored
    refine ⟨moved, kept, ?_, ?_, ?_⟩
    · rw [sameOwner, same, owner]
    · rw [forkTurn]
      exact visible
    · rw [forkTurn]
      exact Int.le_trans within (Int.ofNat_le.mpr (grows.heads forest.timeline))
  · refine Subrelation.wf ?_ forest.acyclic
    intro parent child related
    obtain ⟨next, found, fork⟩ := related
    obtain ⟨record, stored, _, _, link, _⟩ := backward child next found
    exact ⟨record, stored, link.symm.trans fork⟩

theorem TimelineForest.admits {repo : ConversationRepository} (forest : TimelineForest store)
    (admitted : repo.admitExecution store tenantId sessionId executionId expected
      expectedSession handsTurn = .ok ((record, turn), after)) :
    TimelineForest after ∧ TimelineGrows store after := by
  obtain ⟨current, stored, rfl, slot⟩ := ConversationRepository.admitExecution_ok admitted
  cases slot with
  | inl replay =>
    rw [replay.2.2]
    exact ⟨forest, forest.timeline, forest.named, fun _ => prefix_rfl,
      fun _ record stored => ⟨record, stored, rfl, rfl, rfl, rfl⟩⟩
  | inr taken =>
    obtain ⟨_, nonempty, rfl, rfl⟩ := taken
    have present := (forest.keyed _ current stored).2
    apply forest.adds ⟨rfl, rfl⟩ _ ⟨present, nonempty⟩
    intro id
    change (update store.sessions current.sessionId _ id).map _ = _
    by_cases own : id = current.sessionId
    case pos =>
      rw [own, update_self, stored]
      rfl
    case neg => rw [update_of_ne own]

end Admissions

/-- Following the cursors from the first page on shows all turns of the lineage once, newest
page first, in full pages except for the last one, whatever is admitted in between.  The first
page and the page behind every cursor are found, and each call returns if its bodies load. -/
theorem timeline_pages_cover_lineage {first : TimelineRequest}
    (forest : TimelineForest first.store) (stored : first.store.sessions sessionId = some root)
    (waiting : ∀ execution ∈ first.pendingExecution, execution.executionId ≠ "")
    (recorded : ∀ fact ∈ first.store.turns sessionId, (first.executions fact.data).isSome = true)
    (accepted : 1 ≤ limit ∧ limit ≤ 200) :
    ∃ chain, Ancestry first.store root.ownerPrincipalId sessionId
        (first.store.turnSequences sessionId) chain ∧ (timelineListing first root chain).Nodup ∧
      BlocksFound reader sessionId root.ownerPrincipalId first none limit
        (timelineListing first root chain) ∧
      (reader.repository.tenantId ≠ "" → ∀ request cursor,
        (∃ page, reader.fetch sessionId limit request cursor = .ok page) ↔
          BodiesLoad reader sessionId request cursor limit) ∧
      ∀ requests pages final,
        Walk (reader.fetch sessionId limit) Follows (first :: requests) none pages final →
        WalkShows ShowsTurn (fun request token left => ∀ later, Follows request later →
            BlocksFound reader sessionId root.ownerPrincipalId later (some token) limit left)
          limit.toNat (timelineListing first root chain) (first :: requests) pages final := by
  obtain ⟨keyed, nonempty⟩ := forest.keyed sessionId root stored
  obtain ⟨chain, ancestry⟩ := forest.exists_ancestry stored (le_refl _)
  have rows : SoundRows first.store := ⟨forest.timeline, forest.named⟩
  have pending : ∀ execution ∈ observedPending first root, execution.executionId ≠ "" ∧
        ∀ fact ∈ first.store.turns root.sessionId, fact.data ≠ execution.executionId := by
    intro execution observed
    obtain ⟨given, unseen⟩ := Option.filter_eq_some_iff.mp observed
    refine ⟨waiting execution given, fun fact member same => ?_⟩
    have unrecorded := (of_decide_eq_true unseen).2.2.2.2.2
    rw [keyed] at member
    have kept := recorded fact member
    rw [same, Option.isSome_iff_ne_none] at kept
    exact kept (Option.isNone_iff_eq_none.mp unrecorded)
  have start : BlocksFound reader sessionId root.ownerPrincipalId first none limit
      (timelineListing first root chain) := by
    apply readBlocks_ok rows stored keyed accepted rfl
    rw [timelineListing]
    apply firstBlocks_ok forest.timeline forest.named
    · exact keyed ▸ stored
    · exact keyed ▸ nonempty
    · exact keyed ▸ ancestry
    · exact pending
    · omega
  have fetches : ∀ request cursor listing items next,
      BlocksFound reader sessionId root.ownerPrincipalId request cursor limit listing →
      reader.fetch sessionId limit request cursor = .ok (items, next) →
      List.Forall₂ ShowsTurn (listing.take limit.toNat) items ∧
        (next = none ∧ listing.length ≤ limit.toNat ∨ ∃ token, next = some token ∧
          limit.toNat < listing.length ∧ Leaves reader sessionId root.ownerPrincipalId request
            token (listing.drop limit.toNat)) :=
    fun _ _ _ _ _ found fetched => found.page accepted fetched
  have turns : ∀ request token listing later,
      Leaves reader sessionId root.ownerPrincipalId request token listing →
      Follows request later → BlocksFound reader sessionId root.ownerPrincipalId later
        (some token) limit listing :=
    fun _ _ _ _ leaves follows => leaves.blocks_found follows accepted
  refine ⟨chain, ancestry, timelineListing_nodup forest.timeline (keyed ▸ ancestry), start,
    fun tenant _ _ => fetch_returns_iff tenant, fun requests pages final walk => ?_⟩
  have shown := Walk.shows fetches turns start walk
  obtain ⟨⟨seen, left, split, turns, last, more⟩, full, bounded⟩ := shown
  refine ⟨⟨seen, left, split, turns, last, ?_⟩, full, bounded⟩
  intro token given
  obtain ⟨some, request, reached, leaves⟩ := more token given
  exact ⟨some, request, reached, fun _ follows => leaves.blocks_found follows accepted⟩

def sampleTimeline : ConversationStore where
  sessions id :=
    if id = "s" then some sampleSession
    else if id = "c" then some { sampleSession with
      sessionId := "c", timelineParentSessionId := some "s", timelineParentTurnSeq := 1 }
    else none
  turns id := if id = "s" then [⟨1, "a"⟩] else []
  turnSequences id := if id = "s" then 1 else 0

theorem sample_forest : TimelineForest sampleTimeline where
  timeline := by
    constructor
    intro id
    by_cases own : id = "s"
    case pos => rw [own]; rfl
    case neg =>
      change (if id = "s" then _ else _ : List (StoredFact String)).map _ =
        range' 1 (if id = "s" then 1 else 0)
      rw [if_neg own, if_neg own]
      rfl
  named := by
    intro id fact member
    change fact ∈ (if id = "s" then _ else _ : List (StoredFact String)) at member
    split at member
    case isTrue own =>
      rw [own, mem_singleton.mp member]
      decide
    case isFalse => cases member
  keyed := by
    intro id record stored
    change (if id = "s" then _ else if id = "c" then _ else none) = some record at stored
    split at stored
    case isTrue own => cases stored; exact ⟨own.symm, own ▸ by decide⟩
    case isFalse =>
      split at stored
      case isTrue own => cases stored; exact ⟨own.symm, own ▸ by decide⟩
      case isFalse => cases stored
  linked := by
    intro id record stored parent fork
    change (if id = "s" then _ else if id = "c" then _ else none) = some record at stored
    split at stored
    case isTrue => cases stored; cases fork
    case isFalse =>
      split at stored
      case isTrue =>
        cases stored
        cases fork
        exact ⟨sampleSession, rfl, rfl, by decide, by decide⟩
      case isFalse => cases stored
  acyclic := by
    refine Subrelation.wf ?_ (InvImage.wf (fun id => if id = "s" then 0 else 1) Nat.lt_wfRel.wf)
    intro parent id related
    obtain ⟨record, stored, fork⟩ := related
    change (if id = "s" then _ else if id = "c" then _ else none) = some record at stored
    change (if parent = "s" then 0 else 1) < (if id = "s" then 0 else 1)
    split at stored
    case isTrue => cases stored; cases fork
    case isFalse other =>
      split at stored
      case isTrue =>
        cases stored
        cases fork
        rw [if_pos rfl, if_neg other]
        exact Nat.zero_lt_one
      case isFalse => cases stored

def sampleReader : TimelineReader Nat (Nat × String) String String where
  repository := sampleRepository
  signer :=
    { currentKeyId := "k"
      currentKey := 7
      hmac := fun secret payload keyId => (secret + payload.expiresAt, keyId)
      apart := fun _ given => absurd given (Option.not_mem_none _) }
  filterDigest id := id
  messageRange _ _ _ := .ok []
  items messages := messages
  committedOutput output := .ok (.str output)

def sampleExecution (id sessionId : String) : TimelineExecution where
  executionId := id
  sessionId := some sessionId
  parentExecutionId := none
  principalId := "p"
  conversation := true
  status := .started
  createdAt := 0
  updatedAt := 0
  storedUserInput := "input"
  errorCode := none
  safeErrorDetails := []

/-- The first page of the forked session, with a turn of its own that is not admitted yet. -/
def sampleRequest : TimelineRequest where
  store := sampleTimeline
  executions id := if id = "a" then some (sampleExecution "a" "s") else none
  now := 0
  pendingExecution := some (sampleExecution "b" "c")

def sampleLaterRequest : TimelineRequest where
  store := ((playCalls (ConversationCall.run sampleRepository) sampleTimeline
    [.admitExecution "t" "s" "a" none none false]).1)
  executions id := if id = "a" then some (sampleExecution "a" "s") else none
  now := 1

theorem sample_follows : Follows sampleRequest sampleLaterRequest := by
  have step : (conversationSystem sampleRepository).step sampleTimeline
      ⟨.admitExecution "t" "s" "a" none none false, none⟩ sampleLaterRequest.store :=
    step_playCall (by decide +kernel)
  rcases callSystem_cases step with ⟨_, done⟩ | ⟨_, raised, _⟩
  · simp only [ConversationCall.run, bind_eq_ok, pure_eq_ok, Prod.exists] at done
    obtain ⟨_, _, _, admitted, same⟩ := done
    rw [same] at admitted
    exact ⟨(sample_forest.admits admitted).2, by decide⟩
  · cases raised

/-- Two pages of one turn each: the pending turn, and the inherited one, whose execution is
admitted once more in between. -/
theorem sample_pages_cover_lineage : ∃ pages,
    Walk (sampleReader.fetch "c" 1) Follows [sampleRequest, sampleLaterRequest] none pages none ∧
      pages.map (·.map (·.executionId)) = [["b"], ["a"]] ∧
      ∃ chain, Ancestry sampleTimeline "p" "c" 0 chain ∧ (timelineListing sampleRequest
          { sampleSession with
            sessionId := "c", timelineParentSessionId := some "s", timelineParentTurnSeq := 1 }
          chain).Nodup ∧
        WalkShows ShowsTurn (fun request token left => ∀ later, Follows request later →
            BlocksFound sampleReader "c" "p" later (some token) 1 left)
          1 (timelineListing sampleRequest
            { sampleSession with
              sessionId := "c", timelineParentSessionId := some "s", timelineParentTurnSeq := 1 }
            chain) [sampleRequest, sampleLaterRequest] pages none := by
  have fetched : ∃ items token,
      sampleReader.fetch "c" 1 sampleRequest none = .ok (items, some token) ∧
      items.map (·.executionId) = ["b"] ∧ ∃ rest,
        sampleReader.fetch "c" 1 sampleLaterRequest (some token) = .ok (rest, none) ∧
        rest.map (·.executionId) = ["a"] :=
    ⟨_, _, rfl, rfl, _, rfl, rfl⟩
  obtain ⟨items, token, first, shown, rest, second, restShown⟩ := fetched
  have walk : Walk (sampleReader.fetch "c" 1) Follows [sampleRequest, sampleLaterRequest] none
      [items, rest] none :=
    .turn first sample_follows (.stop second)
  refine ⟨[items, rest], walk, ?_, ?_⟩
  · rw [map_cons, map_singleton, shown, restShown]
  · have waiting : ∀ execution ∈ sampleRequest.pendingExecution, execution.executionId ≠ "" := by
      intro execution given
      cases given
      decide
    have recorded : ∀ fact ∈ sampleRequest.store.turns "c",
        (sampleRequest.executions fact.data).isSome = true := forall_mem_nil _
    have accepted : 1 ≤ (1 : Int) ∧ (1 : Int) ≤ 200 := by decide
    obtain ⟨chain, ancestry, apart, _, _, shows⟩ := @timeline_pages_cover_lineage _ _ _ _ _
      sampleReader _ _ _ _ sample_forest rfl waiting recorded accepted
    exact ⟨chain, ancestry, apart, shows _ _ _ walk⟩

end Linktools.Conversation
