import Linktools.Conversation.ForkForests

namespace Linktools.Conversation

open Linktools.Core Library
open List hiding count head

/-! A range is resolved through trees and forests: every segment comes out once, but with its
window counted from the segment's end. -/

variable {store : ConversationStore} {tree : SkewTree IndexNode} {depth start stop : Nat}

def nodeSegment (window : Window IndexNode) : ResolvedSegment :=
  ⟨window.item.segment, window.start, window.stop⟩

/-- The windows of a range of the messages of nodes, the newest message first. -/
def nodeSegments (nodes : List IndexNode) (start stop : Nat) : List ResolvedSegment :=
  (windows ownMessages nodes start stop).map nodeSegment

theorem nodeSegments_cons (filled : start < stop) :
    nodeSegments (node :: rest) start stop = ownSegment node start stop ++
        nodeSegments rest (start - ownMessages node) (stop - ownMessages node) := by
  rw [nodeSegments, windows_cons, map_append, nodeSegments]
  congr 1
  rw [ownSegment, ← ownMessages]
  by_cases own : start < ownMessages node
  · rw [if_pos own, if_pos (by omega)]
    rfl
  · rw [if_neg own, if_neg (by omega)]
    rfl

theorem nodeSegments_append :
    nodeSegments (left ++ right) start stop = nodeSegments left start stop ++
        nodeSegments right (start - (left.map ownMessages).sum)
          (stop - (left.map ownMessages).sum) := by
  rw [nodeSegments, windows_append, map_append]
  rfl

variable {nodes : List IndexNode}

theorem nodeSegments_of_le (empty : stop ≤ start) : nodeSegments nodes start stop = [] := by
  rw [nodeSegments, windows_of_le empty]
  rfl

theorem nodeSegments_of_total_le (outside : (nodes.map ownMessages).sum ≤ start) :
    nodeSegments nodes start stop = [] := by
  rw [nodeSegments, windows_of_total_le outside]
  rfl

theorem nodeSegments_min_weight :
    nodeSegments tree.items start (min stop (tree.weight ownMessages)) =
      nodeSegments tree.items start stop := by
  rw [nodeSegments, SkewTree.weight, windows_min_stop]
  rfl

theorem loadChild_stored (stored : store.indexNodes node.nodeId = some node)
    (named : nodeId = node.nodeId) :
    loadChild store.getIndexNode (some nodeId) = .ok (some node) := by
  rw [loadChild, named, ConversationStore.getIndexNode_of_stored stored]
  rfl

theorem collectTreeLazy_eq (represents : TreeAt store.indexNodes tree)
    (deep : tree.height ≤ depth) (within : stop ≤ tree.weight ownMessages) :
    collectTreeLazy store.getIndexNode depth tree.own start stop =
      .ok (nodeSegments tree.items start stop) := by
  induction tree generalizing depth start stop with
  | leaf node =>
    obtain ⟨depth, rfl⟩ : ∃ lower, depth = lower + 1 := Nat.exists_eq_add_one.mpr deep
    rw [SkewTree.weight_leaf] at within
    rw [collectTreeLazy, SkewTree.own, SkewTree.items, ← ownMessages]
    by_cases empty : stop ≤ start
    · rw [if_pos empty, nodeSegments_of_le empty]
    · rw [if_neg empty, if_pos within, nodeSegments_cons (by omega),
        nodeSegments_of_le (by omega), append_nil]
  | branch node newer older newerEq olderEq =>
    obtain ⟨_, left, right, _, _, newerAt, olderAt⟩ := represents
    obtain ⟨depth, rfl⟩ : ∃ lower, depth = lower + 1 :=
      Nat.exists_eq_add_one.mpr (lt_of_lt_of_le (Nat.succ_pos _) deep)
    rw [SkewTree.height] at deep
    rw [SkewTree.weight_branch] at within
    rw [collectTreeLazy, SkewTree.own, SkewTree.items, ← ownMessages]
    by_cases empty : stop ≤ start
    · rw [if_pos empty, nodeSegments_of_le empty]
    by_cases inOwn : stop ≤ ownMessages node
    · rw [if_neg empty, if_pos inOwn, nodeSegments_cons (by omega),
        nodeSegments_of_le (by omega), append_nil]
    have newerPart : collectTreeLazy store.getIndexNode depth newer.own
        (start - ownMessages node) (min (stop - ownMessages node) (newer.weight ownMessages)) =
          .ok (nodeSegments newer.items (start - ownMessages node) (stop - ownMessages node)) := by
      rw [newerEq newerAt (by omega : newer.height ≤ depth) (Nat.min_le_right _ _),
        nodeSegments_min_weight]
    have olderPart : collectTreeLazy store.getIndexNode depth older.own
        (start - (ownMessages node + newer.weight ownMessages))
        (min (stop - (ownMessages node + newer.weight ownMessages))
          (older.weight ownMessages)) = .ok (nodeSegments older.items
            (start - (ownMessages node + newer.weight ownMessages))
            (stop - (ownMessages node + newer.weight ownMessages))) := by
      rw [olderEq olderAt (by omega : older.height ≤ depth) (Nat.min_le_right _ _),
        nodeSegments_min_weight]
    have passed : ¬start < ownMessages node + newer.weight ownMessages →
        nodeSegments newer.items (start - ownMessages node) (stop - ownMessages node) = [] := by
      intro later
      refine nodeSegments_of_total_le ?_
      rw [← SkewTree.weight]
      omega
    have split : nodeSegments (node :: (newer.items ++ older.items)) start stop =
        ownSegment node start stop ++
          nodeSegments newer.items (start - ownMessages node) (stop - ownMessages node) ++
            nodeSegments older.items (start - (ownMessages node + newer.weight ownMessages))
              (stop - (ownMessages node + newer.weight ownMessages)) := by
      rw [nodeSegments_cons (by omega), nodeSegments_append, ← SkewTree.weight, Nat.sub_sub,
        Nat.sub_sub, append_assoc]
    rw [if_neg empty, if_neg inOwn, left, loadChild_stored newerAt.own_stored rfl, ok_bind, right,
      loadChild_stored olderAt.own_stored rfl, split]
    by_cases reaches : ownMessages node + newer.weight ownMessages < stop
    · have inside : ¬ownMessages node + newer.weight ownMessages + older.weight ownMessages ≤
          start := by omega
      simp only [Option.map_some, Option.getD_some, newerAt.messageCount, olderAt.messageCount,
        if_pos reaches, ok_bind, if_neg inside, newerPart, olderPart]
      by_cases meets : start < ownMessages node + newer.weight ownMessages
      · rw [if_pos ⟨by omega, meets⟩]
        rfl
      · rw [if_neg fun both => meets both.2, passed meets, append_nil]
        rfl
    · have none : nodeSegments older.items
          (start - (ownMessages node + newer.weight ownMessages))
          (stop - (ownMessages node + newer.weight ownMessages)) = [] :=
        nodeSegments_of_le (by omega)
      have inside : ¬ownMessages node + newer.weight ownMessages + 0 ≤ start := by omega
      have meets : ownMessages node < stop ∧
          start < ownMessages node + newer.weight ownMessages := by omega
      simp only [Option.map_some, Option.map_none, Option.getD_some, Option.getD_none,
        newerAt.messageCount, if_neg reaches, ok_bind, if_neg inside, if_pos meets, newerPart,
        none, append_nil]
      rfl

theorem collectRoots_eq (represents : ForestAt store.indexNodes head forest)
    (deep : ∀ tree ∈ forest, tree.height ≤ depth) (filled : start < stop)
    (within : stop ≤ SkewForest.weight ownMessages forest) :
    collectRoots store.getIndexNode depth (forest.map SkewTree.own) start stop =
      .ok (nodeSegments (SkewForest.items forest) start stop) := by
  induction forest generalizing head start stop with
  | nil => rfl
  | cons tree rest ih =>
    obtain ⟨_, treeAt, restAt⟩ := represents
    have deepRest : ∀ other ∈ rest, other.height ≤ depth := fun other member =>
      deep other (mem_cons_of_mem _ member)
    rw [SkewForest.weight, map_cons, sum_cons, ← SkewForest.weight] at within
    have first : collectTreeLazy store.getIndexNode depth tree.own start
        (min stop (tree.weight ownMessages)) = .ok (nodeSegments tree.items start stop) := by
      rw [collectTreeLazy_eq treeAt (deep tree mem_cons_self) (Nat.min_le_right _ _),
        nodeSegments_min_weight]
    rw [SkewForest.items, flatMap_cons, nodeSegments_append, ← SkewTree.weight,
      ← SkewForest.items, map_cons, collectRoots, treeAt.messageCount]
    by_cases skipped : tree.weight ownMessages ≤ start
    · rw [if_pos skipped, ih restAt deepRest (by omega) (by omega),
        (nodeSegments_of_total_le skipped : nodeSegments tree.items start stop = []),
        nil_append]
    · rw [if_neg skipped, first, ok_bind]
      by_cases ended : stop ≤ tree.weight ownMessages
      · have finished : stop - tree.weight ownMessages ≤ start - tree.weight ownMessages := by
          omega
        rw [if_pos ended, nodeSegments_of_le finished, append_nil]
        rfl
      · have none : start - tree.weight ownMessages = 0 := by omega
        rw [if_neg ended, ih restAt deepRest (by omega) (by omega), none]
        rfl

variable {pieces : List (String × Nat)} {localMessages : Nat}

def pieceSegment (window : Window (String × Nat)) : HistorySegment :=
  ⟨window.item.1, window.start, window.stop⟩

def inheritedSegments (pieces : List (String × Nat)) (start stop : Nat) : List HistorySegment :=
  ((windows Prod.snd pieces start stop).map (Window.mirror Prod.snd)).map pieceSegment

def localSegments (historyId : String) (start stop : Nat) : List HistorySegment :=
  if start < stop then [⟨historyId, start, stop⟩] else []

section

variable (stored : PrefixForest store.indexNodes head pieces forest)
include stored

theorem PrefixForest.items_reverse :
    (SkewForest.items forest).reverse.map piece = pieces := by
  rw [map_reverse, stored.holds, reverse_reverse]

theorem PrefixForest.inheritedSegments_eq (within : stop ≤ (pieces.map Prod.snd).sum) :
    (nodeSegments (SkewForest.items forest) ((pieces.map Prod.snd).sum - stop)
        ((pieces.map Prod.snd).sum - start)).reverse.map ResolvedSegment.historySegment =
      inheritedSegments pieces start stop := by
  have total : ((SkewForest.items forest).reverse.map ownMessages).sum =
      (pieces.map Prod.snd).sum := by
    rw [← stored.weight, SkewForest.weight_eq_sum, map_reverse, sum_reverse]
  have mirrored : windows ownMessages (SkewForest.items forest)
      ((pieces.map Prod.snd).sum - stop) ((pieces.map Prod.snd).sum - start) =
        ((windows ownMessages (SkewForest.items forest).reverse start stop).map
          (Window.mirror ownMessages)).reverse := by
    rw [← total] at within ⊢
    rw [← windows_reverse within, reverse_reverse]
  have pieced : windows Prod.snd pieces start stop =
      (windows ownMessages (SkewForest.items forest).reverse start stop).map fun window =>
        ⟨piece window.item, window.start, window.stop⟩ := by
    rw [← stored.items_reverse]
    exact windows_map
  rw [inheritedSegments, pieced, nodeSegments, mirrored, map_reverse, map_reverse,
    map_reverse, reverse_reverse, map_map, map_map, map_map, map_map]
  rfl

end

theorem segmentRef_eq (named : ownerHistoryId ≠ "") :
    segmentRef ownerHistoryId localMessages = .ok ⟨ownerHistoryId, localMessages, named⟩ := by
  rw [segmentRef, dif_pos named]

theorem appendLocal_eq (named : ownerHistoryId ≠ "")
    (mapped : resolved.map ResolvedSegment.historySegment = segments) :
    ∃ appended, (if start < stop then do
        let own ← segmentRef ownerHistoryId localMessages
        return resolved ++ [⟨own, start, stop⟩]
      else return resolved : Except Raised (List ResolvedSegment)) = .ok appended ∧
      appended.map ResolvedSegment.historySegment =
        segments ++ localSegments ownerHistoryId start stop := by
  rw [localSegments]
  split
  case isTrue =>
    rw [segmentRef_eq named]
    refine ⟨_, rfl, ?_⟩
    rw [map_append, mapped]
    rfl
  case isFalse =>
    refine ⟨resolved, rfl, ?_⟩
    rw [mapped, append_nil]

theorem resolveHistoryRangeLazy_eq (stored : PrefixForest store.indexNodes head pieces forest)
    (deep : ∀ tree ∈ forest, tree.height ≤ depth) (named : ownerHistoryId ≠ "")
    (filled : start < stop) (within : stop ≤ (pieces.map Prod.snd).sum + localMessages) :
    ∃ resolved, resolveHistoryRangeLazy store.getIndexNode depth (forest.map SkewTree.own)
        ownerHistoryId localMessages (pieces.map Prod.snd).sum start stop = .ok resolved ∧
      resolved.map ResolvedSegment.historySegment = inheritedSegments pieces start stop ++
        localSegments ownerHistoryId (start - (pieces.map Prod.snd).sum)
          (stop - (pieces.map Prod.snd).sum) := by
  have counted : ((forest.map SkewTree.own).map (·.treeMessageCount)).sum =
      (pieces.map Prod.snd).sum := by
    rw [stored.represents.messageCounts, stored.weight]
  rw [resolveHistoryRangeLazy, refuse_of_not (by omega), ok_bind, refuse_of_not (by omega), ok_bind,
    if_neg (by omega), counted, refuse_of_not (not_not.mpr rfl), ok_bind]
  dsimp only
  rw [min_eq_left (show stop - (pieces.map Prod.snd).sum ≤ localMessages by omega)]
  split
  case isTrue before =>
    have collected : collectRoots store.getIndexNode depth (forest.map SkewTree.own)
        ((pieces.map Prod.snd).sum - min stop (pieces.map Prod.snd).sum)
        ((pieces.map Prod.snd).sum - start) = .ok (nodeSegments (SkewForest.items forest)
            ((pieces.map Prod.snd).sum - min stop (pieces.map Prod.snd).sum)
            ((pieces.map Prod.snd).sum - start)) :=
      collectRoots_eq stored.represents deep (by omega) (by rw [stored.weight]; omega)
    rw [collected]
    refine appendLocal_eq named ?_
    rw [stored.inheritedSegments_eq (Nat.min_le_right _ _), inheritedSegments, windows_min_stop]
    rfl
  case isFalse beyond =>
    refine appendLocal_eq named ?_
    rw [inheritedSegments, windows_of_total_le (by omega)]
    rfl

end Linktools.Conversation

namespace Linktools.Conversation

open Linktools.Core Library Library.Machine Transcript
open List hiding count head

/-! Reads of a range of a branch: its segments one after the other, every message with its
place. -/

def loadedAt (historyId : String) (entry : ModelMessage × Nat) : LoadedContextMessage :=
  ⟨entry.1, some ⟨.conversation, historyId, entry.2⟩⟩

namespace ConversationStore

variable (store : ConversationStore)

def loadSegment (historyId : String) (segment : HistorySegment) :
    Except Raised (List LoadedContextMessage) := do
  let observedHead :=
    if segment.historyId = historyId then store.transcriptHead historyId else none
  let messages ← (store.transcripts segment.historyId).iterRange segment.historyId
    ⟨segment.start, segment.stop⟩ observedHead
  return (messages.zipIdx segment.start).map (loadedAt segment.historyId)

def loadSegments (historyId : String) (segments : List HistorySegment) :
    Except Raised (List LoadedContextMessage) :=
  flatten <$> segments.mapM (store.loadSegment historyId)

def localMessages (historyId : String) : List LoadedContextMessage :=
  (store.transcripts historyId).messages.zipIdx.map (loadedAt historyId)

def pieceMessages (piece : String × Nat) : List LoadedContextMessage :=
  (store.localMessages piece.1).take piece.2

def cutSegment (segment : HistorySegment) : List LoadedContextMessage :=
  ((store.localMessages segment.historyId).take segment.stop).drop segment.start

end ConversationStore

/-- What a branch sees: the messages that it inherits, cut off at the fork points, and its
own messages. -/
def Branches.sees (branches : Branches) (historyId : String) : List LoadedContextMessage :=
  (branches.lineage historyId).flatMap branches.store.pieceMessages ++
    branches.store.localMessages historyId

def ReadsRange (repo : ConversationRepository) (store : ConversationStore)
    (historyId : String) (start stop : Nat) (messages : List LoadedContextMessage) : Prop :=
  ∃ segments, repo.historyMessageSegments store historyId start stop = .ok segments ∧
    store.loadSegments historyId segments = .ok messages

variable {repo : ConversationRepository} {store after : ConversationStore}
  {lineage : Lineage} {record : ConversationHistoryRecord} {historyId : String}
  {segment : HistorySegment} {start stop : Nat}

theorem length_localMessages :
    (store.localMessages historyId).length = (store.transcripts historyId).messages.length := by
  rw [ConversationStore.localMessages, length_map, length_zipIdx]

theorem getElem?_localMessages : (store.localMessages historyId)[index]? =
      (store.transcripts historyId).messages[index]?.map fun message =>
        loadedAt historyId (message, index) := by
  rw [ConversationStore.localMessages, getElem?_map, getElem?_zipIdx, zero_add,
    Option.map_map]
  rfl

theorem cutSegment_eq : ((sliceOf ⟨segment.start, segment.stop⟩
        (store.transcripts segment.historyId).messages).zipIdx segment.start).map
          (loadedAt segment.historyId) = store.cutSegment segment := by
  apply ext_getElem?
  intro offset
  rw [ConversationStore.cutSegment, sliceOf, getElem?_map, getElem?_zipIdx,
    getElem?_drop, getElem?_drop]
  by_cases inside : segment.start + offset < segment.stop
  · rw [getElem?_take_of_lt inside, getElem?_take_of_lt inside,
      getElem?_localMessages, Option.map_map]
    rfl
  · have outside : segment.stop ≤ segment.start + offset := Nat.le_of_not_lt inside
    rw [getElem?_take_eq_none outside, getElem?_take_eq_none outside]
    rfl

structure Readable (store : ConversationStore) (segment : HistorySegment) : Prop where
  headed : ∃ stored, (store.transcripts segment.historyId).head = some stored
  within : segment.stop ≤ (store.transcripts segment.historyId).messages.length

theorem Readable.observable (readable : Readable store segment)
    (wellFormed : ∀ historyId, WellFormed historyId (store.transcripts historyId)) :
    OwnerTranscript.Observable segment.historyId
      (store.transcripts segment.historyId).messages.length (store.transcripts segment.historyId)
      (if segment.historyId = historyId then store.transcriptHead historyId else none) := by
  obtain ⟨stored, head⟩ := readable.headed
  refine ⟨stored.head, ?_, (wellFormed _).owner stored head,
    ((wellFormed _).length_messages head).symm⟩
  split
  case isTrue same =>
    rw [ConversationStore.transcriptHead, ← same, head]
    rfl
  case isFalse =>
    rw [head]
    rfl

theorem Readable.loadSegment_eq (readable : Readable store segment)
    (wellFormed : ∀ historyId, WellFormed historyId (store.transcripts historyId)) :
    store.loadSegment historyId segment = .ok (store.cutSegment segment) := by
  rw [ConversationStore.loadSegment, OwnerTranscript.iterRange_eq (wellFormed _)
    (readable.observable wellFormed)
    readable.within (le_refl _), ok_bind, cutSegment_eq]
  rfl

variable {segments : List HistorySegment}

theorem loadSegments_eq (readable : ∀ segment ∈ segments, Readable store segment)
    (wellFormed : ∀ historyId, WellFormed historyId (store.transcripts historyId)) :
    store.loadSegments historyId segments = .ok (segments.flatMap store.cutSegment) := by
  rw [ConversationStore.loadSegments, mapM_eq_map fun segment member =>
    (readable segment member).loadSegment_eq wellFormed]
  rfl

variable {piece : String × Nat}

theorem Kept.readable_piece (kept : Kept store lineage)
    (member : piece ∈ lineage historyId) (owner : segment.historyId = piece.1)
    (within : segment.stop ≤ piece.2) : Readable store segment := by
  obtain ⟨positive, durable⟩ := kept.pieces historyId piece member
  rw [← owner] at durable
  refine ⟨?_, within.trans durable⟩
  cases head : (store.transcripts segment.historyId).head with
  | some stored => exact ⟨stored, rfl⟩
  | none =>
    have empty := (kept.wellFormed segment.historyId).headless head
    have none : (store.transcripts segment.historyId).messages = [] := by
      rw [OwnerTranscript.messages, OwnerTranscript.chunks, empty]
      rfl
    rw [none, length_nil] at durable
    omega

theorem Kept.head (kept : Kept store lineage) (found : store.histories historyId = some record) :
    ∃ stored, (store.transcripts historyId).head = some stored ∧ stored.head.ownerId = historyId ∧
      stored.head.messageCount = (store.transcripts historyId).messages.length := by
  obtain ⟨stored, head⟩ := Option.ne_none_iff_exists'.mp (kept.headed historyId record found)
  exact ⟨stored, head, (kept.wellFormed historyId).owner stored head,
    ((kept.wellFormed historyId).length_messages head).symm⟩

theorem localSegments_eq (within : stop ≤ count) :
    localSegments historyId start stop =
      (windows Prod.snd [(historyId, count)] start stop).map pieceSegment := by
  rw [localSegments, windows_cons, windows_nil, append_nil, min_eq_left within]
  split
  case isTrue => rfl
  case isFalse => rfl

def branchSegments (lineage : Lineage) (record : ConversationHistoryRecord)
    (historyId : String) (start stop : Nat) : List HistorySegment :=
  inheritedSegments (lineage historyId) start stop ++
    localSegments historyId (start - record.inheritedMessageCount)
      (stop - record.inheritedMessageCount)

theorem Kept.readable (kept : Kept store lineage) (found : store.histories historyId = some record)
    (within : stop ≤ record.inheritedMessageCount + (store.transcripts historyId).messages.length) :
    ∀ segment ∈ branchSegments lineage record historyId start stop, Readable store segment := by
  intro segment member
  rcases mem_append.mp member with inherited | own
  · rw [inheritedSegments, map_map] at inherited
    obtain ⟨window, windowMember, rfl⟩ := mem_map.mp inherited
    exact kept.readable_piece (windows_item windowMember) rfl (Nat.sub_le _ _)
  · rw [localSegments_eq (Nat.sub_le_of_le_add (Nat.add_comm _ _ ▸ within))] at own
    obtain ⟨window, windowMember, rfl⟩ := mem_map.mp own
    obtain ⟨stored, head, _⟩ := kept.head found
    have item := windows_item windowMember
    rw [mem_singleton] at item
    have proper := windows_proper windowMember
    refine ⟨?_, ?_⟩
    · rw [pieceSegment, item]
      exact ⟨stored, head⟩
    · have stopped := proper.2
      rw [pieceSegment, item] at *
      exact stopped

variable {pieces : List (String × Nat)}

theorem PrefixForest.height_le (stored : PrefixForest nodes head pieces forest)
    (bounded : pieces.length < 2 ^ bits) : ∀ tree ∈ forest, tree.height ≤ bits := by
  intro tree member
  have total : SkewForest.size forest = pieces.length := by
    have counts := congrArg length stored.holds
    rw [length_map, length_reverse] at counts
    rw [SkewForest.size_eq_length, counts]
  have part : tree.size ≤ SkewForest.size forest := le_sum_of_mem (mem_map_of_mem member)
  exact (stored.skew.perfect tree member).height_le (by omega)

theorem prefetch_eq (present : store.transcriptHead historyId = some head)
    (readable : ∀ segment ∈ segments, Readable store segment)
    (wellFormed : ∀ historyId, WellFormed historyId (store.transcripts historyId)) :
    ConversationRepository.prefetch store historyId head segments = .ok segments := by
  cases segments with
  | nil => rfl
  | cons first rest =>
    have reads := readable first mem_cons_self
    have observable : OwnerTranscript.Observable first.historyId
        (store.transcripts first.historyId).messages.length
        (store.transcripts first.historyId)
        (if first.historyId = historyId then some head else none) := by
      rw [← present]
      exact reads.observable wellFormed
    rw [ConversationRepository.prefetch, OwnerTranscript.readRangeStart_eq observable reads.within]
    rfl

section

variable (kept : Kept store lineage) (found : store.histories historyId = some record)
  (ordered : start ≤ stop)
  (within : stop ≤ record.inheritedMessageCount + (store.transcripts historyId).messages.length)

include kept found ordered within

theorem historyMessageSegments_unfold (repo : ConversationRepository) :
    ∃ head, store.transcriptHead historyId = some head ∧
      head.messageCount = (store.transcripts historyId).messages.length ∧
      repo.historyMessageSegments store historyId start stop =
        asIntegrity (if start = stop then .ok []
          else do
            let roots ← store.getForestRoots record.prefixIndexHeadId 64
            let resolved ← resolveHistoryRangeLazy store.getIndexNode repo.recursionLimit
              roots historyId head.messageCount record.inheritedMessageCount start stop
            ConversationRepository.prefetch store historyId head
              (resolved.map ResolvedSegment.historySegment)) := by
  obtain ⟨stored, head, owner, count⟩ := kept.head found
  have present : store.transcriptHead historyId = some stored.head := by
    rw [ConversationStore.transcriptHead, head]
    rfl
  refine ⟨stored.head, present, count, ?_⟩
  rw [ConversationRepository.historyMessageSegments, refuse_of_not (by omega), ok_bind, found,
    present, orRaise, ok_bind, orRaise, ok_bind, refuse_of_not (not_not.mpr owner), ok_bind]
  dsimp only
  rw [refuse_of_not (by omega), ok_bind, Int.toNat_natCast, Int.toNat_natCast]
  simp only [Nat.cast_inj]
  rfl

theorem historyMessageSegments_of_empty (empty : start = stop) :
    repo.historyMessageSegments store historyId start stop = .ok [] := by
  obtain ⟨_, _, _, unfolded⟩ := historyMessageSegments_unfold kept found ordered within repo
  rw [unfolded, if_pos empty]
  rfl

theorem historyMessageSegments_of_few (filled : start ≠ stop)
    (fuel : (lineage historyId).length < 2 ^ repo.recursionLimit)
    (few : (SkewForest.sizesOf (lineage historyId).length).length ≤ 64) :
    repo.historyMessageSegments store historyId start stop =
      .ok (branchSegments lineage record historyId start stop) := by
  obtain ⟨head, present, count, unfolded⟩ :=
    historyMessageSegments_unfold kept found ordered within repo
  obtain ⟨sum, forest, stored⟩ := kept.forests historyId record found
  rw [← stored.shaped, length_map] at few
  have roots : store.getForestRoots record.prefixIndexHeadId 64 =
      .ok (forest.map SkewTree.own) := by
    rw [ConversationStore.getForestRoots_eq stored.represents stored.distinct (by decide)
      (.inr few), take_of_length_le few]
  have named : historyId ≠ "" := kept.named historyId record found ▸ record.named.1
  have inRange : stop ≤ ((lineage historyId).map Prod.snd).sum + head.messageCount := by
    omega
  obtain ⟨resolved, resolution, segments⟩ := resolveHistoryRangeLazy_eq stored
    (stored.height_le fuel) named (by omega : start < stop) inRange
  rw [sum] at resolution segments
  rw [unfolded, if_neg filled, roots, ok_bind, resolution, ok_bind, segments]
  change asIntegrity (ConversationRepository.prefetch store historyId head
    (branchSegments lineage record historyId start stop)) = _
  rw [prefetch_eq present (kept.readable found within) kept.wellFormed]
  rfl

theorem historyMessageSegments_of_many (filled : start ≠ stop)
    (many : 64 < (SkewForest.sizesOf (lineage historyId).length).length) :
    ∃ raised, repo.historyMessageSegments store historyId start stop = .error raised := by
  obtain ⟨head, _, _, unfolded⟩ :=
    historyMessageSegments_unfold kept found ordered within repo
  obtain ⟨_, forest, stored⟩ := kept.forests historyId record found
  rw [← stored.shaped, length_map] at many
  have unresolved : ∃ raised, store.followRoots 64 64 [] record.prefixIndexHeadId = .error raised :=
    ConversationStore.followRoots_error stored.represents (by decide) many
  obtain ⟨raised, refused⟩ := unresolved
  rw [unfolded, if_neg filled, ConversationStore.getForestRoots, refuse_of_not (by decide), ok_bind,
    refused]
  cases raised <;> exact ⟨_, rfl⟩

end

theorem length_pieceMessages (kept : Kept store lineage)
    (member : piece ∈ lineage historyId) : (store.pieceMessages piece).length = piece.2 := by
  obtain ⟨_, durable⟩ := kept.pieces historyId piece member
  rw [ConversationStore.pieceMessages, length_take, length_localMessages,
    min_eq_left durable]

theorem cutSegment_pieceSegment (within : window.stop ≤ window.item.2) :
    store.cutSegment (pieceSegment window) = window.cut store.pieceMessages := by
  rw [ConversationStore.cutSegment, Window.cut, ConversationStore.pieceMessages, take_take,
    min_eq_left within]
  rfl

def messagePlace (piece : String × Nat) (index : Nat) : Option TranscriptMessageRef :=
  some ⟨.conversation, piece.1, index⟩

theorem pieceMessages_source (kept : Kept store lineage) (member : piece ∈ lineage historyId) :
    (store.pieceMessages piece).map LoadedContextMessage.source =
      (range piece.2).map (messagePlace piece) := by
  obtain ⟨_, durable⟩ := kept.pieces historyId piece member
  apply ext_getElem?
  intro index
  rw [ConversationStore.pieceMessages, getElem?_map, getElem?_map]
  by_cases inside : index < piece.2
  · rw [getElem?_take_of_lt inside, getElem?_localMessages, getElem?_range inside,
      getElem?_eq_getElem (by omega)]
    rfl
  · have outside : piece.2 ≤ index := Nat.le_of_not_lt inside
    rw [getElem?_take_eq_none outside, getElem?_eq_none (by rwa [length_range])]
    rfl

theorem messagePlace_injective (piece : String × Nat) : Function.Injective
    (messagePlace piece) := by
  intro first second same
  simpa [messagePlace] using same

theorem pieceMessages_local :
    store.pieceMessages (historyId, (store.transcripts historyId).messages.length) =
      store.localMessages historyId := by
  rw [ConversationStore.pieceMessages, ← length_localMessages, take_length]

theorem cut_pieceSegments {cuts : List (Window (String × Nat))}
    (within : ∀ window ∈ cuts, window.stop ≤ window.item.2) :
    (cuts.map pieceSegment).flatMap store.cutSegment =
      cuts.flatMap (Window.cut store.pieceMessages) := by
  rw [flatMap_map]
  exact flatMap_congr fun window member => cutSegment_pieceSegment (within window member)

theorem cut_inheritedSegments : (inheritedSegments pieces start stop).flatMap store.cutSegment =
      ((windows Prod.snd pieces start stop).map (Window.mirror Prod.snd)).flatMap
        (Window.cut store.pieceMessages) := by
  rw [inheritedSegments, cut_pieceSegments]
  intro window member
  obtain ⟨source, _, rfl⟩ := mem_map.mp member
  exact Nat.sub_le _ _

theorem branchSegments_cut_iff (kept : Kept store lineage)
    (found : store.histories historyId = some record)
    (within : stop ≤ record.inheritedMessageCount + (store.transcripts historyId).messages.length) :
    (branchSegments lineage record historyId start stop).flatMap store.cutSegment =
        (((Branches.mk store lineage).sees historyId).take stop).drop start ↔
      ∀ window ∈ windows Prod.snd (lineage historyId) start stop,
        window.start + window.stop = window.item.2 := by
  obtain ⟨sum, _⟩ := kept.forests historyId record found
  have lengths : ∀ piece ∈ lineage historyId ++
      [(historyId, (store.transcripts historyId).messages.length)],
      (store.pieceMessages piece).length = piece.2 := by
    intro piece member
    rcases mem_append.mp member with inherited | own
    · exact length_pieceMessages kept inherited
    · rw [mem_singleton.mp own, pieceMessages_local, length_localMessages]
  have slice : (windows Prod.snd (lineage historyId ++
      [(historyId, (store.transcripts historyId).messages.length)]) start stop).flatMap
        (Window.cut store.pieceMessages) = _ := windows_cut lengths
  rw [flatMap_append, flatMap_singleton, pieceMessages_local, windows_append, sum,
    flatMap_append] at slice
  rw [branchSegments, flatMap_append, cut_inheritedSegments, Branches.sees, ← slice,
    localSegments_eq (Nat.sub_le_of_le_add (Nat.add_comm _ _ ▸ within)),
    cut_pieceSegments fun window member => (windows_proper member).2, append_left_inj]
  exact mirror_cut_iff messagePlace_injective (fun window => windows_proper) fun window member =>
    pieceMessages_source kept (windows_item member)

theorem length_sees (kept : Kept store lineage) (found : store.histories historyId = some record) :
    ((Branches.mk store lineage).sees historyId).length =
      record.inheritedMessageCount + (store.transcripts historyId).messages.length := by
  obtain ⟨sum, _⟩ := kept.forests historyId record found
  rw [Branches.sees, length_append, length_localMessages, length_flatMap,
    map_congr_left fun piece => length_pieceMessages kept, sum]

def ConversationCall.isAppend : ConversationCall → Bool
  | .appendChunks _ _ _ _ => true
  | _ => false

structure AppendedTo (before after : Branches) : Prop where
  lineage : after.lineage = before.lineage
  histories : after.store.histories = before.store.histories
  more : ∀ historyId, ∃ more, (after.store.transcripts historyId).messages =
    (before.store.transcripts historyId).messages ++ more

variable {label : ConversationLabel} {labels : List ConversationLabel}

theorem AppendedTo.refl (branches : Branches) : AppendedTo branches branches :=
  ⟨rfl, rfl, fun _ => ⟨[], (append_nil _).symm⟩⟩

theorem AppendedTo.trans (earlier : AppendedTo first middle) (later : AppendedTo middle last) :
    AppendedTo first last where
  lineage := later.lineage.trans earlier.lineage
  histories := later.histories.trans earlier.histories
  more historyId := by
    obtain ⟨some, someMessages⟩ := earlier.more historyId
    obtain ⟨more, moreMessages⟩ := later.more historyId
    exact ⟨some ++ more, by rw [moreMessages, someMessages, append_assoc]⟩

theorem appendedTo_step (step : (branchSystem repo).step first label last)
    (append : label.call.isAppend) : AppendedTo first last := by
  rcases callSystem_cases step with ⟨_, done⟩ | ⟨_, _, _, rfl⟩
  · obtain ⟨call, raised⟩ := label
    cases call with
    | appendChunks historyId =>
      simp only [Branches.run, ConversationCall.run, bind_eq_ok, pure_eq_ok] at done
      obtain ⟨after, appended, rfl⟩ := done
      obtain ⟨transcript, projections, written, rfl⟩ := ConversationStore.appendChunks_ok appended
      refine ⟨rfl, rfl, fun other => ?_⟩
      by_cases same : other = historyId
      · subst same
        dsimp only
        rw [Function.update_self]
        exact ⟨_, OwnerTranscript.appendChunks_messages written⟩
      · dsimp only
        rw [Function.update_of_ne same]
        exact ⟨[], (append_nil _).symm⟩
    | _ => cases append
  · exact .refl _

theorem appendedTo_run (run : Run (branchSystem repo) first labels last)
    (appends : ∀ label ∈ labels, label.call.isAppend) : AppendedTo first last := by
  induction run with
  | nil => exact .refl _
  | cons step _ ih =>
    have here := appendedTo_step step (appends _ mem_cons_self)
    exact here.trans (ih fun label member => appends label (mem_cons_of_mem _ member))

theorem AppendedTo.localMessages (appended : AppendedTo first last) (historyId : String) :
    ∃ more, last.store.localMessages historyId = first.store.localMessages historyId ++ more := by
  obtain ⟨more, messages⟩ := appended.more historyId
  rw [ConversationStore.localMessages, messages, zipIdx_append, map_append]
  exact ⟨_, rfl⟩

theorem AppendedTo.sees (appended : AppendedTo first last)
    (kept : Kept first.store first.lineage) (historyId : String) :
    ∃ more, last.sees historyId = first.sees historyId ++ more := by
  obtain ⟨more, locals⟩ := appended.localMessages historyId
  have inherited : (first.lineage historyId).flatMap last.store.pieceMessages =
      (first.lineage historyId).flatMap first.store.pieceMessages := by
    apply flatMap_congr
    intro piece member
    obtain ⟨_, durable⟩ := kept.pieces historyId piece member
    obtain ⟨_, pieceLocals⟩ := appended.localMessages piece.1
    rw [ConversationStore.pieceMessages, pieceLocals,
      take_append_of_le_length (by rwa [length_localMessages])]
    rfl
  refine ⟨more, ?_⟩
  rw [Branches.sees, appended.lineage, inherited, locals, ← append_assoc]
  rfl

/-- At most 64 roots, and every inherited segment that the range meets is cut in its
middle: as many messages are left out in front as behind. -/
def ReadInPlace (branches : Branches) (historyId : String) (start stop : Nat) : Prop :=
  (SkewForest.sizesOf (branches.lineage historyId).length).length ≤ 64 ∧
    ∀ window ∈ windows Prod.snd (branches.lineage historyId) start stop,
      window.start + window.stop = window.item.2

instance (branches : Branches) : Decidable (ReadInPlace branches historyId start stop) :=
  inferInstanceAs (Decidable (_ ∧ _))

theorem Kept.readsRange_iff (kept : Kept store lineage)
    (found : store.histories historyId = some record)
    (fuel : (lineage historyId).length < 2 ^ repo.recursionLimit) (ordered : start ≤ stop)
    (within : stop ≤ record.inheritedMessageCount + (store.transcripts historyId).messages.length) :
    ReadsRange repo store historyId start stop
        ((((Branches.mk store lineage).sees historyId).take stop).drop start) ↔
      start = stop ∨ ReadInPlace ⟨store, lineage⟩ historyId start stop := by
  by_cases empty : start = stop
  · subst empty
    refine iff_of_true ⟨[], historyMessageSegments_of_empty kept found ordered within rfl, ?_⟩
      (.inl rfl)
    rw [loadSegments_eq (fun _ member => absurd member not_mem_nil) kept.wellFormed,
      drop_eq_nil_of_le (length_take_le _ _)]
    rfl
  rw [or_iff_right empty, ReadInPlace]
  by_cases few : (SkewForest.sizesOf (lineage historyId).length).length ≤ 64
  · have resolved := historyMessageSegments_of_few kept found ordered within empty fuel few
    have loaded : store.loadSegments historyId
        (branchSegments lineage record historyId start stop) =
          .ok ((branchSegments lineage record historyId start stop).flatMap store.cutSegment) :=
      loadSegments_eq (kept.readable found within) kept.wellFormed
    rw [and_iff_right few, ← branchSegments_cut_iff kept found within]
    constructor
    · rintro ⟨segments, resolution, loads⟩
      rw [resolved, Except.ok.injEq] at resolution
      rw [← resolution, loaded, Except.ok.injEq] at loads
      exact loads
    · intro same
      exact ⟨_, resolved, by rw [loaded, same]⟩
  · obtain ⟨raised, refused⟩ :=
      historyMessageSegments_of_many kept found ordered within empty (Nat.lt_of_not_le few)
    refine iff_of_false ?_ fun both => few both.1
    rintro ⟨segments, resolution, _⟩
    rw [refused] at resolution
    cases resolution

/-- After every run of calls and any later appends, a range of a branch is read as what the
branch saw if and only if it is empty or read in place. -/
theorem forked_reads_iff_in_place {branches later : Branches}
    {labels appends : List ConversationLabel}
    (run : Run (branchSystem repo) ⟨{}, fun _ => []⟩ labels branches)
    (appended : Run (branchSystem repo) branches appends later)
    (onlyAppends : ∀ label ∈ appends, label.call.isAppend)
    (found : branches.store.histories historyId = some record)
    (fuel : (branches.lineage historyId).length < 2 ^ repo.recursionLimit)
    (ordered : start ≤ stop) (within : stop ≤ record.inheritedMessageCount +
      (branches.store.transcripts historyId).messages.length) :
    ReadsRange repo later.store historyId start stop
        (((branches.sees historyId).take stop).drop start) ↔
      start = stop ∨ ReadInPlace branches historyId start stop := by
  have kept := kept_run run kept_empty
  have grown := appendedTo_run appended onlyAppends
  obtain ⟨more, sees⟩ := grown.sees kept historyId
  obtain ⟨_, messages⟩ := grown.more historyId
  have reaches : stop ≤ (branches.sees historyId).length := by rwa [length_sees kept found]
  have foundLater : later.store.histories historyId = some record := by rwa [grown.histories]
  have withinLater : stop ≤ record.inheritedMessageCount +
      (later.store.transcripts historyId).messages.length := by
    rw [messages, length_append]
    omega
  have fuelLater : (later.lineage historyId).length < 2 ^ repo.recursionLimit := by
    rwa [grown.lineage]
  have reads := (kept_run appended kept).readsRange_iff foundLater fuelLater ordered withinLater
  rw [sees, take_append_of_le_length reaches, ReadInPlace, grown.lineage] at reads
  exact reads

def sampleBranches : Branches :=
  (playCalls (Branches.run sampleRepository) ⟨{}, fun _ => []⟩ sampleForks).1

theorem sample_run : Run (branchSystem sampleRepository) ⟨{}, fun _ => []⟩
    (playCalls (Branches.run sampleRepository) ⟨{}, fun _ => []⟩ sampleForks).2 sampleBranches :=
  run_playCalls _ sampleForks

def sampleAppended : Branches :=
  (playCalls (Branches.run sampleRepository) sampleBranches
    [.appendChunks "h0" [⟨"h0", 10, .raw, [⟨.request, [.other "later"], ""⟩]⟩] none none]).1

/-- All that the third branch inherits is read in place. -/
theorem sample_forked_read : ReadsRange sampleRepository sampleAppended.store "h3" 0 15
      (((sampleBranches.sees "h3").take 15).drop 0) := by
  have found : sampleBranches.store.histories "h3" = some sampleBranch := by decide +kernel
  have appended : Run (branchSystem sampleRepository) sampleBranches
      (playCalls (Branches.run sampleRepository) sampleBranches
        [.appendChunks "h0" [⟨"h0", 10, .raw, [⟨.request, [.other "later"], ""⟩]⟩] none none]).2
      sampleAppended := run_playCalls _ _
  exact (forked_reads_iff_in_place sample_run appended (by decide +kernel) found
    (by decide +kernel) (by decide) (by decide +kernel)).mpr (.inr (by decide +kernel))

/-- The first three messages of a fork are resolved to the last three of its source. -/
theorem sample_forked_read_mirrored : Run (branchSystem sampleRepository) ⟨{}, fun _ => []⟩
        (playCalls (Branches.run sampleRepository) ⟨{}, fun _ => []⟩ sampleForks).2 sampleBranches ∧
      sampleRepository.historyMessageSegments sampleBranches.store "h1" 0 3 = .ok [⟨"h0", 7, 10⟩] ∧
      ¬ReadsRange sampleRepository sampleBranches.store "h1" 0 3
        (((sampleBranches.sees "h1").take 3).drop 0) := by
  have resolved : sampleRepository.historyMessageSegments sampleBranches.store "h1" 0 3 =
      .ok [⟨"h0", 7, 10⟩] := toOption_eq_some.mp (by decide +kernel)
  refine ⟨sample_run, resolved, ?_⟩
  rintro ⟨segments, resolution, loads⟩
  have same := resolution.symm.trans resolved
  rw [Except.ok.injEq] at same
  rw [same, loadSegments_eq ?_ (kept_run sample_run kept_empty).wellFormed,
    Except.ok.injEq] at loads
  · revert loads
    decide +kernel
  · intro segment member
    rw [mem_singleton.mp member]
    exact ⟨Option.ne_none_iff_exists'.mp (by decide +kernel), by decide +kernel⟩

end Linktools.Conversation
