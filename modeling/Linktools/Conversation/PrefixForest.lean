import Linktools.Conversation.Histories

namespace Linktools.Conversation

open Library SkewForest Function
open List hiding count

/-! The trees and forests that stored index nodes stand for, and how a fork's new node
extends them. -/

abbrev IndexNode := ConversationHistoryIndexNodeRecord

abbrev IndexNodes := String → Option IndexNode

def ownMessages (node : IndexNode) : Nat := node.segment.throughLocalMessageCount

/-- The nodes of a tree are stored, each with the counts of its own segment and of its
children added up. -/
def TreeAt (nodes : IndexNodes) : SkewTree IndexNode → Prop
  | .leaf node =>
    nodes node.nodeId = some node ∧ node.leftTreeId = none ∧ node.rightTreeId = none ∧
      node.treeSegmentCount = 1 ∧ node.treeMessageCount = ownMessages node
  | .branch node newer older =>
    nodes node.nodeId = some node ∧ node.leftTreeId = some newer.own.nodeId ∧
      node.rightTreeId = some older.own.nodeId ∧
      node.treeSegmentCount = newer.own.treeSegmentCount + older.own.treeSegmentCount + 1 ∧
      node.treeMessageCount =
        ownMessages node + newer.own.treeMessageCount + older.own.treeMessageCount ∧
      TreeAt nodes newer ∧ TreeAt nodes older

def ForestAt (nodes : IndexNodes) : Option String → List (SkewTree IndexNode) → Prop
  | head, [] => head = none
  | head, tree :: rest =>
    head = some tree.own.nodeId ∧ TreeAt nodes tree ∧ ForestAt nodes tree.own.nextForestId rest

variable {nodes : IndexNodes} {tree : SkewTree IndexNode} {forest : List (SkewTree IndexNode)}
  {head : Option String} {node : IndexNode} {store after : ConversationStore}

section

variable (represents : TreeAt nodes tree)
include represents

theorem TreeAt.own_stored : nodes tree.own.nodeId = some tree.own := by
  cases tree with
  | leaf node => exact represents.1
  | branch => exact represents.1

theorem TreeAt.segmentCount : tree.own.treeSegmentCount = tree.size := by
  induction tree with
  | leaf node => exact represents.2.2.2.1
  | branch node newer older newerCount olderCount =>
    obtain ⟨_, _, _, segments, _, newerAt, olderAt⟩ := represents
    rw [SkewTree.size, ← newerCount newerAt, ← olderCount olderAt]
    exact segments

theorem TreeAt.messageCount : tree.own.treeMessageCount = tree.weight ownMessages := by
  induction tree with
  | leaf node =>
    rw [SkewTree.weight_leaf]
    exact represents.2.2.2.2
  | branch node newer older newerCount olderCount =>
    obtain ⟨_, _, _, _, messages, newerAt, olderAt⟩ := represents
    rw [SkewTree.weight_branch, ← newerCount newerAt, ← olderCount olderAt, ← add_assoc]
    exact messages

theorem TreeAt.stored (member : node ∈ tree.items) : nodes node.nodeId = some node := by
  induction tree with
  | leaf own =>
    rw [mem_singleton.mp member]
    exact represents.1
  | branch own newer older newerStored olderStored =>
    obtain ⟨stored, _, _, _, _, newerAt, olderAt⟩ := represents
    rcases mem_cons.mp member with rfl | inside
    · exact stored
    · rcases mem_append.mp inside with inNewer | inOlder
      · exact newerStored newerAt inNewer
      · exact olderStored olderAt inOlder

end

theorem ForestAt.stored (represents : ForestAt nodes head forest)
    (member : node ∈ items forest) : nodes node.nodeId = some node := by
  induction forest generalizing head with
  | nil => cases member
  | cons tree rest ih =>
    obtain ⟨_, treeAt, restAt⟩ := represents
    rw [items, flatMap_cons] at member
    rcases mem_append.mp member with here | later
    · exact treeAt.stored here
    · exact ih restAt later

variable {larger : IndexNodes}

section

variable (kept : ∀ nodeId stored, nodes nodeId = some stored → larger nodeId = some stored)
include kept

theorem TreeAt.mono (represents : TreeAt nodes tree) : TreeAt larger tree := by
  induction tree with
  | leaf own => exact ⟨kept _ _ represents.1, represents.2⟩
  | branch own newer older newerKept olderKept =>
    obtain ⟨stored, left, right, segments, messages, newerAt, olderAt⟩ := represents
    exact ⟨kept _ _ stored, left, right, segments, messages, newerKept newerAt, olderKept olderAt⟩

theorem ForestAt.mono (represents : ForestAt nodes head forest) : ForestAt larger head forest := by
  induction forest generalizing head with
  | nil => exact represents
  | cons tree rest ih =>
    obtain ⟨headed, treeAt, restAt⟩ := represents
    exact ⟨headed, treeAt.mono kept, ih restAt⟩

end

theorem ForestAt.messageCounts (represents : ForestAt nodes head forest) :
    ((forest.map SkewTree.own).map (·.treeMessageCount)).sum = weight ownMessages forest := by
  induction forest generalizing head with
  | nil => rfl
  | cons tree rest ih =>
    obtain ⟨_, treeAt, restAt⟩ := represents
    rw [map_cons, map_cons, sum_cons, ih restAt, treeAt.messageCount]
    rfl

def DistinctNodes (forest : List (SkewTree IndexNode)) : Prop :=
  ((items forest).map (·.nodeId)).Nodup

theorem DistinctNodes.tail (distinct : DistinctNodes (tree :: forest)) : DistinctNodes forest := by
  unfold DistinctNodes items at distinct ⊢
  rw [flatMap_cons, map_append] at distinct
  exact distinct.of_append_right

theorem own_mem_items : tree.own ∈ tree.items := by
  cases tree with
  | leaf node => exact mem_singleton.mpr rfl
  | branch => exact mem_cons_self

theorem DistinctNodes.head_notin (distinct : DistinctNodes (tree :: forest))
    (member : other ∈ forest) : other.own.nodeId ≠ tree.own.nodeId := by
  unfold DistinctNodes items at distinct
  rw [flatMap_cons, map_append, nodup_append] at distinct
  have inTree : tree.own.nodeId ∈ tree.items.map (·.nodeId) := mem_map_of_mem own_mem_items
  have inForest : other.own.nodeId ∈ (forest.flatMap SkewTree.items).map (·.nodeId) :=
    mem_map_of_mem (mem_flatMap.mpr ⟨other, member, own_mem_items⟩)
  exact (distinct.2.2 _ inTree _ inForest).symm

namespace ConversationStore

theorem getIndexNode_of_stored (stored : store.indexNodes node.nodeId = some node) :
    store.getIndexNode node.nodeId = .ok node := by
  rw [getIndexNode, stored, orRaise, ok_bind, refuse_of_not (by simp)]
  rfl

section

variable (represents : ForestAt store.indexNodes head forest)
include represents

theorem followRoots_eq
    (distinct : DistinctNodes forest) (unseen : ∀ tree ∈ forest, tree.own.nodeId ∉ visited)
    (allowed : maxRoots ≤ 2 ∨ forest.length ≤ budget) :
    store.followRoots maxRoots budget visited head =
      .ok ((forest.take budget).map SkewTree.own) := by
  induction forest generalizing head budget visited with
  | nil =>
    rw [ForestAt] at represents
    subst represents
    rw [take_nil]
    cases budget <;> rfl
  | cons tree rest ih =>
    obtain ⟨rfl, treeAt, restAt⟩ := represents
    cases budget with
    | zero =>
      have few : ¬2 < maxRoots := by
        rcases allowed with few | none
        · omega
        · cases none
      rw [followRoots, if_neg few]
      rfl
    | succ budget =>
      have later : ∀ other ∈ rest, other.own.nodeId ∉ tree.own.nodeId :: visited := by
        intro other member visitedBefore
        rcases mem_cons.mp visitedBefore with same | seen
        · exact distinct.head_notin member same
        · exact unseen other (mem_cons_of_mem _ member) seen
      have allowedLater : maxRoots ≤ 2 ∨ rest.length ≤ budget :=
        allowed.imp_right Nat.le_of_succ_le_succ
      rw [followRoots, refuse_of_not (unseen tree mem_cons_self), ok_bind,
        getIndexNode_of_stored treeAt.own_stored, ok_bind,
        ih restAt distinct.tail later allowedLater]
      rfl

theorem getForestRoots_eq (distinct : DistinctNodes forest) (positive : 0 < maxRoots)
    (allowed : maxRoots ≤ 2 ∨ forest.length ≤ maxRoots) :
    store.getForestRoots head maxRoots = .ok ((forest.take maxRoots).map SkewTree.own) := by
  rw [getForestRoots, refuse_of_not (by omega), ok_bind]
  exact followRoots_eq represents distinct (fun _ _ => not_mem_nil) allowed

theorem followRoots_error (limited : 2 < maxRoots) (exceeded : budget < forest.length) :
    ∃ raised, store.followRoots maxRoots budget visited head = .error raised := by
  induction forest generalizing head budget visited with
  | nil => cases exceeded
  | cons tree rest ih =>
    obtain ⟨rfl, treeAt, restAt⟩ := represents
    cases budget with
    | zero =>
      rw [followRoots, if_pos limited]
      exact ⟨_, rfl⟩
    | succ budget =>
      obtain ⟨raised, fails⟩ : ∃ raised, store.followRoots maxRoots budget
          (tree.own.nodeId :: visited) tree.own.nextForestId = .error raised :=
        ih restAt (Nat.lt_of_succ_lt_succ exceeded)
      rw [followRoots]
      by_cases seen : tree.own.nodeId ∈ visited
      · rw [refuse_of seen]
        exact ⟨_, rfl⟩
      · rw [refuse_of_not seen, ok_bind, getIndexNode_of_stored treeAt.own_stored, ok_bind, fails]
        exact ⟨_, rfl⟩

end

theorem insertIndexNode_ok (done : store.insertIndexNode node = .ok after) :
    store.indexNodes node.nodeId = none ∧
      after = { store with
        indexNodes := update store.indexNodes node.nodeId (some node) } := by
  simp only [insertIndexNode, bind_eq_ok, refuse_eq_ok, pure_eq_ok, not_not] at done
  obtain ⟨_, fresh, rfl⟩ := done
  exact ⟨fresh, rfl⟩

theorem segmentRef_ok {segment : ConversationHistorySegmentRef}
    (built : segmentRef owner count = .ok segment) :
    segment.ownerHistoryId = owner ∧ segment.throughLocalMessageCount = count := by
  unfold segmentRef at built
  split at built
  case isTrue =>
    cases built
    exact ⟨rfl, rfl⟩
  case isFalse => cases built

end ConversationStore

/-- The new node stands for the forest with one segment more in front. -/
def Extends (nodes : IndexNodes) (forest : List (SkewTree IndexNode)) (node : IndexNode) : Prop :=
  nodes node.nodeId = none →
    ForestAt (update nodes node.nodeId (some node)) (some node.nodeId)
      (push node forest)

variable {nodeId : String}

theorem kept_by_fresh (added : IndexNode) (fresh : nodes nodeId = none) :
    ∀ other stored, nodes other = some stored →
      update nodes nodeId (some added) other = some stored := by
  intro other stored found
  have different : other ≠ nodeId := by
    rintro rfl
    cases fresh.symm.trans found
  rwa [update_of_ne different]

theorem extends_leaf (represents : ForestAt nodes head forest)
    (apart : ∀ first second rest, forest = first :: second :: rest → first.size ≠ second.size) :
    Extends nodes forest (leafNode nodeId frozen head) := by
  intro fresh
  have pushed : push (leafNode nodeId frozen head) forest =
      .leaf (leafNode nodeId frozen head) :: forest := by
    unfold push
    split
    case h_1 first second rest => rw [if_neg (apart first second rest rfl)]
    case h_2 => rfl
    case h_3 => rfl
  rw [pushed]
  exact ⟨rfl, ⟨update_self _ _ _, rfl, rfl, rfl, rfl⟩,
    represents.mono (kept_by_fresh _ fresh)⟩

theorem extends_joined (represents : ForestAt nodes head (first :: second :: forest))
    (same : first.size = second.size) :
    Extends nodes (first :: second :: forest) (joinedNode nodeId frozen first.own second.own) := by
  intro fresh
  obtain ⟨_, firstAt, _, secondAt, restAt⟩ := represents
  have kept := kept_by_fresh (joinedNode nodeId frozen first.own second.own) fresh
  rw [push, if_pos same]
  refine ⟨rfl, ⟨update_self _ _ _, rfl, rfl, rfl, ?_, firstAt.mono kept,
    secondAt.mono kept⟩, restAt.mono kept⟩
  simp only [joinedNode, ownMessages]
  omega

namespace ConversationStore

theorem buildForkIndexNodeFromRoots_ok (represents : ForestAt nodes head forest)
    (some : 0 < localMessages)
    (built : buildForkIndexNodeFromRoots nodeId ((forest.take 2).map SkewTree.own) sourceHistoryId
      localMessages = .ok index) :
    ∃ node, index = .node node ∧ node.nodeId = nodeId ∧
      node.segment.ownerHistoryId = sourceHistoryId ∧ ownMessages node = localMessages ∧
      Extends nodes forest node := by
  rw [buildForkIndexNodeFromRoots, if_neg (by omega)] at built
  obtain ⟨frozen, segment, built⟩ := bind_eq_ok.mp built
  obtain ⟨owner, count⟩ := segmentRef_ok segment
  cases forest with
  | nil =>
    cases built
    rw [ForestAt] at represents
    subst represents
    exact ⟨_, rfl, rfl, owner, count, extends_leaf rfl nofun⟩
  | cons first rest =>
    cases rest with
    | nil =>
      cases built
      have headed := represents.1
      subst headed
      exact ⟨_, rfl, rfl, owner, count, extends_leaf represents nofun⟩
    | cons =>
      have firstCount := represents.2.1.segmentCount
      have secondCount := represents.2.2.2.1.segmentCount
      simp only [take_succ_cons, map_cons, firstCount, secondCount] at built
      split at built
      case isTrue same =>
        cases built
        exact ⟨_, rfl, rfl, owner, count, extends_joined represents same⟩
      case isFalse different =>
        cases built
        have headed := represents.1
        subst headed
        refine ⟨_, rfl, rfl, owner, count, extends_leaf represents ?_⟩
        rintro _ _ _ ⟨⟩
        exact different

end ConversationStore

def piece (node : IndexNode) : String × Nat :=
  (node.segment.ownerHistoryId, node.segment.throughLocalMessageCount)

/-- The piece that a fork freezes, none if there is nothing to freeze. -/
def frozenPiece (sourceHistoryId : String) (localMessages : Nat) : List (String × Nat) :=
  if 0 < localMessages then [(sourceHistoryId, localMessages)] else []

/-- The stored forest behind a head is skew-binary, names no node twice, and holds the
pieces, the newest one in front. -/
structure PrefixForest (nodes : IndexNodes) (head : Option String) (pieces : List (String × Nat))
    (forest : List (SkewTree IndexNode)) : Prop where
  represents : ForestAt nodes head forest
  skew : SkewForest.Skew forest
  distinct : DistinctNodes forest
  holds : (items forest).map piece = pieces.reverse
  shaped : forest.map SkewTree.size = sizesOf pieces.length

variable {pieces : List (String × Nat)}

theorem prefixForest_nil : PrefixForest nodes none [] [] :=
  ⟨rfl, SkewForest.Skew.nil, nodup_nil, rfl, rfl⟩

section

variable (stored : PrefixForest nodes head pieces forest)
include stored

theorem PrefixForest.mono
    (kept : ∀ nodeId found, nodes nodeId = some found → larger nodeId = some found) :
    PrefixForest larger head pieces forest :=
  ⟨stored.represents.mono kept, stored.skew, stored.distinct, stored.holds, stored.shaped⟩

theorem PrefixForest.weight : weight ownMessages forest = (pieces.map Prod.snd).sum := by
  have counts : (items forest).map ownMessages = ((items forest).map piece).map Prod.snd := by
    rw [map_map]
    rfl
  rw [weight_eq_sum, counts, stored.holds, map_reverse, sum_reverse]

theorem PrefixForest.push
    (extension : Extends nodes forest node) (fresh : nodes node.nodeId = none) :
    PrefixForest (update nodes node.nodeId (some node)) (some node.nodeId)
      (pieces ++ [piece node]) (push node forest) where
  represents := extension fresh
  skew := stored.skew.push
  distinct := by
    unfold DistinctNodes
    rw [items_push, map_cons, nodup_cons]
    refine ⟨?_, stored.distinct⟩
    intro repeated
    obtain ⟨other, member, same⟩ := mem_map.mp repeated
    have found := stored.represents.stored member
    rw [same, fresh] at found
    cases found
  holds := by
    rw [items_push, map_cons, stored.holds, reverse_append]
    rfl
  shaped := by
    rw [map_size_push, stored.shaped, length_append]
    rfl

end

theorem ConversationStore.extendIndex_ok (stored : PrefixForest store.indexNodes head pieces forest)
    (done : store.extendIndex nodeId head sourceHistoryId localMessages = .ok (newHead, after)) :
    ∃ indexNodes extended, after = { store with indexNodes := indexNodes } ∧
      (∀ nodeId found, store.indexNodes nodeId = some found → indexNodes nodeId = some found) ∧
      PrefixForest indexNodes newHead (pieces ++ frozenPiece sourceHistoryId localMessages)
        extended := by
  unfold ConversationStore.extendIndex at done
  split at done
  case isFalse nothing =>
    cases done
    refine ⟨store.indexNodes, forest, rfl, fun _ _ found => found, ?_⟩
    rw [frozenPiece, if_neg nothing, append_nil]
    exact stored
  case isTrue something =>
    rw [getForestRoots_eq stored.represents stored.distinct (by decide) (.inl (le_refl 2)),
      ok_bind] at done
    obtain ⟨index, built, continued⟩ := bind_eq_ok.mp done
    obtain ⟨node, rfl, _, owner, count, extension⟩ :=
      buildForkIndexNodeFromRoots_ok stored.represents something built
    obtain ⟨inserted, insertion, finished⟩ := bind_eq_ok.mp continued
    obtain ⟨fresh, rfl⟩ := insertIndexNode_ok insertion
    cases finished
    refine ⟨_, push node forest, rfl, kept_by_fresh node fresh, ?_⟩
    have frozen : frozenPiece sourceHistoryId localMessages = [piece node] := by
      rw [frozenPiece, if_pos something, ← owner, ← count]
      rfl
    rw [frozen]
    exact stored.push extension fresh

end Linktools.Conversation
