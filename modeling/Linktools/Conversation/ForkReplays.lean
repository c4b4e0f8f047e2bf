import Linktools.Conversation.ForkForests

namespace Linktools.Conversation

open Library Library.Machine

/-! A fork that is called again is compared with one that is built anew, whose index node has a
new identifier. -/

namespace ConversationStore

variable {store after : ConversationStore} {child : ConversationHistoryRecord}
  {sourceHistoryId childHistoryId sessionId nodeId again : String}

def headMessages (store : ConversationStore) (historyId : String) : Nat :=
  ((store.transcriptHead historyId).map (·.messageCount)).getD 0

theorem ensureProjection_again
    (done : store.ensureProjection sourceHistoryId childHistoryId = .ok after) :
    after.ensureProjection sourceHistoryId childHistoryId = .ok after := by
  unfold ensureProjection at done
  split at done
  case h_1 absent =>
    cases done
    rw [ensureProjection, absent]
  case h_2 projection present =>
    split at done
    case h_1 missing =>
      have other : sourceHistoryId ≠ childHistoryId := by
        rintro rfl
        rw [missing] at present
        cases present
      cases done
      simp only [ensureProjection, Function.update_of_ne other, present, Function.update_self]
      exact bind_eq_ok.mpr ⟨(), refuse_eq_ok.mpr (not_not.mpr rfl), rfl⟩
    case h_2 existing kept =>
      simp only [bind_eq_ok, refuse_eq_ok, pure_eq_ok, not_not] at done
      obtain ⟨_, same, rfl⟩ := done
      simp only [ensureProjection, present, kept]
      exact bind_eq_ok.mpr ⟨(), refuse_eq_ok.mpr (not_not.mpr same), rfl⟩

structure Forked (store indexed placed : ConversationStore) (child : ConversationHistoryRecord) :
    Prop where
  stored : placed.histories child.historyId = some child
  others : ∀ historyId, historyId ≠ child.historyId →
    placed.histories historyId = indexed.histories historyId
  replaced : ∀ existing, indexed.histories child.historyId = some existing →
    existing = child ∨ existing.parentHistoryId = none
  heads : ∀ historyId, indexed.histories historyId ≠ none →
    placed.transcriptHead historyId = indexed.transcriptHead historyId
  indexNodes : placed.indexNodes = indexed.indexNodes

theorem fork_parts
    (done : store.fork sourceHistoryId childHistoryId sessionId nodeId = .ok (child, after)) :
    ∃ source head newHead indexed placed, store.histories sourceHistoryId = some source ∧
      store.transcriptHead sourceHistoryId = some head ∧
      store.extendIndex nodeId source.prefixIndexHeadId sourceHistoryId head.messageCount =
        .ok (newHead, indexed) ∧
      historyRecord childHistoryId sessionId (some sourceHistoryId) newHead
        (source.inheritedMessageCount + head.messageCount) = .ok child ∧
      Forked store indexed placed child ∧
      placed.ensureProjection sourceHistoryId childHistoryId = .ok after := by
  simp only [fork, bind_eq_ok, orRaise_eq_ok, Prod.exists] at done
  obtain ⟨source, found, head, headed, newHead, indexed, extended, built, constructed, done⟩ := done
  obtain ⟨named, -⟩ := historyRecord_ok constructed
  rw [← named] at done
  split at done
  case h_1 absent =>
    simp only [createHistory, absent, bind_eq_ok, refuse_eq_ok, pure_eq_ok, Prod.exists,
      Prod.mk.injEq, not_not] at done
    obtain ⟨_, _, ⟨_, headless, rfl, rfl⟩, _, projected, rfl, rfl⟩ := done
    rw [named] at projected
    refine ⟨source, head, newHead, indexed, _, found, headed, extended, constructed, ?_, projected⟩
    constructor
    case stored => exact insertHistory_histories_self indexed
    case others => exact fun _ different => insertHistory_histories_of_ne indexed different
    case replaced =>
      intro existing present
      rw [absent] at present
      cases present
    case heads =>
      intro historyId present
      have different : historyId ≠ built.historyId := by
        rintro rfl
        exact present absent
      unfold transcriptHead insertHistory
      dsimp only
      rw [Function.update_of_ne different]
    case indexNodes => rfl
  case h_2 existing present =>
    split at done
    case isTrue same =>
      simp only [bind_eq_ok, pair_eq_ok] at done
      obtain ⟨_, projected, rfl, rfl⟩ := done
      subst same
      rw [named] at projected
      refine ⟨source, head, newHead, indexed, indexed, found, headed, extended, constructed, ?_,
        projected⟩
      constructor
      case stored => exact present
      case others => exact fun _ _ => rfl
      case replaced =>
        intro other alsoPresent
        rw [present] at alsoPresent
        exact .inl (Option.some.inj alsoPresent).symm
      case heads => exact fun _ _ => rfl
      case indexNodes => rfl
    case isFalse =>
      split at done
      case isFalse => cases done
      case isTrue root =>
        simp only [bind_eq_ok, pair_eq_ok] at done
        obtain ⟨_, projected, rfl, rfl⟩ := done
        rw [named] at projected present
        refine ⟨source, head, newHead, indexed, _, found, headed, extended, constructed, ?_,
          projected⟩
        constructor
        case stored =>
          rw [named]
          exact Function.update_self _ _ _
        case others =>
          intro historyId different
          rw [named] at different
          exact Function.update_of_ne different _ _
        case replaced =>
          intro other alsoPresent
          rw [named, present] at alsoPresent
          exact .inr (Option.some.inj alsoPresent ▸ root.2.1)
        case heads => exact fun _ _ => rfl
        case indexNodes => rfl

theorem Forked.source {indexed placed : ConversationStore} {source : ConversationHistoryRecord}
    (forked : Forked store indexed placed child)
    (found : indexed.histories sourceHistoryId = some source)
    (constructed : historyRecord childHistoryId sessionId (some sourceHistoryId) newHead count =
      .ok child)
    (empty : newHead = source.prefixIndexHeadId ∧ count = source.inheritedMessageCount) :
    ∃ record, placed.histories sourceHistoryId = some record ∧
      record.prefixIndexHeadId = source.prefixIndexHeadId ∧
      record.inheritedMessageCount = source.inheritedMessageCount := by
  obtain ⟨-, -, -, childHead, inherited⟩ := historyRecord_ok constructed
  by_cases same : sourceHistoryId = child.historyId
  case pos =>
    refine ⟨child, same ▸ forked.stored, ?_, ?_⟩
    · rw [childHead, empty.1]
    · rw [inherited, empty.2]
  case neg => exact ⟨source, (forked.others _ same).trans found, rfl, rfl⟩

theorem fork_again_of_empty
    (done : store.fork sourceHistoryId childHistoryId sessionId nodeId = .ok (child, after))
    (empty : store.headMessages sourceHistoryId = 0) (again : String) :
    after.fork sourceHistoryId childHistoryId sessionId again = .ok (child, after) := by
  obtain ⟨source, head, newHead, indexed, placed, found, headed, extended, constructed, forked,
    projected⟩ := fork_parts done
  have none : head.messageCount = 0 := by
    rwa [headMessages, headed, Option.map_some, Option.getD_some] at empty
  rw [none, extendIndex, if_neg (lt_irrefl 0)] at extended
  obtain ⟨rfl, rfl⟩ := Prod.mk.inj (Except.ok.inj extended)
  rw [none, add_zero] at constructed
  obtain ⟨projections, rfl⟩ := ensureProjection_ok projected
  obtain ⟨record, recorded, recordHead, recordInherited⟩ :=
    forked.source found constructed ⟨rfl, rfl⟩
  have named := (historyRecord_ok constructed).1
  have headedAfter : placed.transcriptHead sourceHistoryId = some head := by
    rw [forked.heads _ (by rw [found]; exact Option.some_ne_none _), headed]
  have stored : placed.histories childHistoryId = some child := named ▸ forked.stored
  simp only [fork, bind_eq_ok, orRaise_eq_ok, Prod.exists]
  refine ⟨record, recorded, head, headedAfter, source.prefixIndexHeadId,
    { placed with projections := projections }, ?_, child, ?_, ?_⟩
  · rw [extendIndex, none, if_neg (lt_irrefl 0), recordHead]
  · rw [recordInherited, none, add_zero, constructed]
  · rw [stored]
    dsimp only
    rw [if_pos rfl]
    exact bind_eq_ok.mpr ⟨_, ensureProjection_again projected, rfl⟩

theorem extendIndex_inserts (holding : 0 < count)
    (done : store.extendIndex nodeId head sourceHistoryId count = .ok (newHead, indexed)) :
    ∃ inserted, store.indexNodes inserted = none ∧ indexed.indexNodes inserted ≠ none := by
  rw [extendIndex, if_pos holding] at done
  obtain ⟨roots, _, done⟩ := bind_eq_ok.mp done
  obtain ⟨index, built, done⟩ := bind_eq_ok.mp done
  rw [buildForkIndexNodeFromRoots, if_neg (Nat.ne_of_gt holding)] at built
  obtain ⟨frozen, _, built⟩ := bind_eq_ok.mp built
  have isNode : ∃ node, index = .node node := by
    split at built
    case h_1 =>
      split at built
      case isTrue => exact ⟨_, (pure_eq_ok.mp built).symm⟩
      case isFalse => exact ⟨_, (pure_eq_ok.mp built).symm⟩
    case h_2 => exact ⟨_, (pure_eq_ok.mp built).symm⟩
    case h_3 => exact ⟨_, (pure_eq_ok.mp built).symm⟩
  obtain ⟨node, rfl⟩ := isNode
  simp only [insertIndexNode, bind_eq_ok, refuse_eq_ok, pure_eq_ok, Prod.mk.injEq, not_not] at done
  obtain ⟨_, ⟨_, fresh, rfl⟩, -, rfl⟩ := done
  refine ⟨node.nodeId, fresh, ?_⟩
  dsimp only
  rw [Function.update_self]
  exact Option.some_ne_none node

section

variable (done : store.fork sourceHistoryId childHistoryId sessionId nodeId = .ok (child, after))
include done

theorem fork_again_of_messages
    (holding : 0 < store.headMessages sourceHistoryId) : after ≠ store := by
  rintro rfl
  obtain ⟨source, head, newHead, indexed, placed, found, headed, extended, constructed, forked,
    projected⟩ := fork_parts done
  rw [headMessages, headed, Option.map_some, Option.getD_some] at holding
  obtain ⟨inserted, fresh, present⟩ := extendIndex_inserts holding extended
  obtain ⟨projections, rfl⟩ := ensureProjection_ok projected
  rw [← forked.indexNodes] at present
  exact present fresh

theorem fork_headMessages :
    after.headMessages sourceHistoryId = store.headMessages sourceHistoryId := by
  obtain ⟨source, head, newHead, indexed, placed, found, headed, extended, constructed, forked,
    projected⟩ := fork_parts done
  obtain ⟨indexNodes, rfl⟩ := extendIndex_nodes extended
  obtain ⟨projections, rfl⟩ := ensureProjection_ok projected
  have kept := forked.heads sourceHistoryId (by rw [found]; exact Option.some_ne_none _)
  unfold headMessages
  exact congrArg (fun head => (head.map (·.messageCount)).getD 0) kept

end

theorem fork_repeats_iff
    (done : store.fork sourceHistoryId childHistoryId sessionId nodeId = .ok (child, after))
    (again : String) :
    after.fork sourceHistoryId childHistoryId sessionId again = .ok (child, after) ↔
      store.headMessages sourceHistoryId = 0 := by
  constructor
  · intro repeated
    by_contra holding
    rw [← fork_headMessages done] at holding
    exact fork_again_of_messages repeated (Nat.pos_of_ne_zero holding) rfl
  · exact fun empty => fork_again_of_empty done empty again

end ConversationStore

def filledSourceCalls : List ConversationCall :=
  [.promoteHistory sampleSession "h0", .appendChunks "h0" (sampleMessages "h0" 10) none none]

def filledSourceStore : ConversationStore :=
  (playCalls (ConversationCall.run sampleRepository) {} filledSourceCalls).1

/-- A fork of the filled history, which has no message of its own yet. -/
def emptySourceStore : ConversationStore :=
  (playCalls (ConversationCall.run sampleRepository) {}
    (filledSourceCalls ++ [.fork "t" "h0" "h1" "s" "n1"])).1

/-- Whether the second of two equal forks conflicts, after one that was made. -/
def secondConflicts (store : ConversationStore) (source child : String) : Option Bool :=
  match store.fork source child "s" "n1" with
  | .error _ => none
  | .ok (_, after) =>
    match after.fork source child "s" "n2" with
    | .error (.ai .idempotencyConflict) => some true
    | _ => some false

theorem empty_source_fork_repeats :
    (emptySourceStore.histories "h1").map (·.inheritedMessageCount) = some 10 ∧
    ∃ child after, emptySourceStore.fork "h1" "h2" "s" "n1" = .ok (child, after) ∧
      after.fork "h1" "h2" "s" "n2" = .ok (child, after) := by
  refine ⟨by decide +kernel, ?_⟩
  have answers : (secondConflicts emptySourceStore "h1" "h2").isSome = true := by decide +kernel
  unfold secondConflicts at answers
  split at answers
  case h_1 => cases answers
  case h_2 child after done =>
    exact ⟨child, after, done, (ConversationStore.fork_repeats_iff done "n2").mpr
      (by decide +kernel)⟩

theorem repeated_fork_conflicts : Run (conversationSystem sampleRepository) {}
        (playCalls (ConversationCall.run sampleRepository) {} filledSourceCalls).2
        filledSourceStore ∧
      ∃ child after, filledSourceStore.fork "h0" "h1" "s" "n1" = .ok (child, after) ∧
        after.fork "h0" "h1" "s" "n2" = .error (.ai .idempotencyConflict) := by
  refine ⟨run_playCalls _ filledSourceCalls, ?_⟩
  have answers : secondConflicts filledSourceStore "h0" "h1" = some true := by decide +kernel
  unfold secondConflicts at answers
  split at answers
  case h_1 => cases answers
  case h_2 child after done =>
    split at answers
    case h_1 raises => exact ⟨child, after, done, raises⟩
    case h_2 => cases answers

end Linktools.Conversation
