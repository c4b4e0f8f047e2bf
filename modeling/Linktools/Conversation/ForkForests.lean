import Linktools.Conversation.PrefixForest
import Linktools.Conversation.SessionSteps

namespace Linktools.Conversation

open Linktools.Core Library Library.Machine Transcript ConversationStore Function List

/-! What every branch sees, kept beside the store as an account of the forks: a child sees
what its source saw up to the fork point, followed by its own messages. -/

structure ForkPoint where
  childHistoryId : String
  sourceHistoryId : String
  localMessages : Nat

/-- The fork that a call makes if it returns.  A fork of a branch takes all the messages of
its source, a fork of a session those of its source that are committed. -/
def forkPoint (repo : ConversationRepository) (store : ConversationStore) :
    ConversationCall → Option ForkPoint
  | .fork _ source child _ _ =>
    (store.transcriptHead source).map fun head => ⟨child, source, head.messageCount⟩
  | .createForkWithOperation sourceSession target _ _ _ => do
    let child := repo.sessionHistoryId target.sessionId
    let session ← store.sessions sourceSession
    let source ← session.historyId
    let history ← store.histories source
    let head ← store.transcriptHead source
    let committed := ConversationRepository.committedTotal session
      (history.inheritedMessageCount + head.messageCount)
    if store.histories child = none then
      some ⟨child, source, committed.toNat - history.inheritedMessageCount⟩
    else none
  | _ => none

/-- Per branch, the messages that it has inherited: whose they are and how many, the
oldest first. -/
abbrev Lineage := String → List (String × Nat)

def Lineage.forked (lineage : Lineage) (point : ForkPoint) : Lineage :=
  update lineage point.childHistoryId
    (lineage point.sourceHistoryId ++ frozenPiece point.sourceHistoryId point.localMessages)

def Lineage.after (lineage : Lineage) : Option ForkPoint → Lineage
  | some point => lineage.forked point
  | none => lineage

structure Branches where
  store : ConversationStore
  lineage : Lineage

def Branches.run (repo : ConversationRepository) (branches : Branches)
    (call : ConversationCall) : Except Raised Branches := do
  let after ← call.run repo branches.store
  return ⟨after, branches.lineage.after (forkPoint repo branches.store call)⟩

def branchSystem (repo : ConversationRepository) : Machine Branches ConversationLabel :=
  callSystem ⟨{}, fun _ => []⟩ (Branches.run repo)

structure SameBranches (store after : ConversationStore) : Prop where
  histories : after.histories = store.histories
  indexNodes : after.indexNodes = store.indexNodes
  transcripts : after.transcripts = store.transcripts

variable {repo : ConversationRepository} {store after : ConversationStore}

theorem SameBranches.refl (store : ConversationStore) : SameBranches store store := ⟨rfl, rfl, rfl⟩

/-- A fresh index node, if any, lets a head stand for one piece more. -/
def ExtendsPrefix (nodes larger : IndexNodes) (head newHead : Option String)
    (point : ForkPoint) : Prop :=
  ∀ pieces forest, PrefixForest nodes head pieces forest → ∃ extended,
    (∀ nodeId found, nodes nodeId = some found → larger nodeId = some found) ∧
    PrefixForest larger newHead
      (pieces ++ frozenPiece point.sourceHistoryId point.localMessages) extended

/-- A child takes over what its source inherits and the source's own messages up to the
fork point. -/
structure Inherits (store after : ConversationStore) (point : ForkPoint)
    (child : ConversationHistoryRecord) : Prop where
  named : child.historyId = point.childHistoryId
  source : ∃ source head, store.histories point.sourceHistoryId = some source ∧
    store.transcriptHead point.sourceHistoryId = some head ∧
    point.localMessages ≤ head.messageCount ∧
    child.inheritedMessageCount = source.inheritedMessageCount + point.localMessages ∧
    ExtendsPrefix store.indexNodes after.indexNodes source.prefixIndexHeadId
      child.prefixIndexHeadId point

inductive BranchChange (store after : ConversationStore) : Option ForkPoint → Prop
  | same (unchanged : SameBranches store after) : BranchChange store after none
  | root (history : ConversationHistoryRecord) (fresh : store.histories history.historyId = none)
      (headless : store.transcriptHead history.historyId = none)
      (prefixless : history.prefixIndexHeadId = none) (nothing : history.inheritedMessageCount = 0)
      (inserted : SameBranches (store.insertHistory history) after) : BranchChange store after none
  | append (historyId : String) (chunks : List TranscriptChunk) (quality : Option HistoryQuality)
      (transcript : OwnerTranscript)
      (appended : (store.transcripts historyId).appendChunks historyId chunks quality =
        .ok transcript) (written : SameBranches
        { store with
          transcripts := update store.transcripts historyId transcript } after) :
      BranchChange store after none
  | insert (point : ForkPoint) (child : ConversationHistoryRecord)
      (inherits : Inherits store after point child) (fresh : store.histories child.historyId = none)
      (headless : store.transcriptHead child.historyId = none) (inserted : SameBranches
        ({ store with indexNodes := after.indexNodes }.insertHistory child) after) :
      BranchChange store after (some point)
  | adopt (point : ForkPoint) (child : ConversationHistoryRecord)
      (inherits : Inherits store after point child)
      (present : ∃ existing, store.histories child.historyId = some existing)
      (adopted : SameBranches
        { store with
          indexNodes := after.indexNodes
          histories := update store.histories child.historyId (some child) } after) :
      BranchChange store after (some point)

variable {nodeId sessionId : String}

theorem ConversationRepository.RewritesSession.sameBranches
    {next : SessionRecord}
    (rewrites : ConversationRepository.RewritesSession store after sessionId current next) :
    SameBranches store after := by
  obtain ⟨_, _, _, _, ledger, rfl⟩ := rewrites
  exact ⟨rfl, rfl, rfl⟩

variable {session : SessionRecord}

theorem ConversationRepository.CreatesSession.branchChange
    (creates : ConversationRepository.CreatesSession store after session) :
    BranchChange store after none := by
  obtain ⟨ledger, history, _, fresh, headless, _, _, _, prefixless, nothing, rfl⟩ := creates
  exact .root history fresh headless prefixless nothing ⟨rfl, rfl, rfl⟩

variable {head newHead : Option String}

theorem extendsPrefix_of_ok (point : ForkPoint)
    (done : store.extendIndex nodeId head point.sourceHistoryId point.localMessages =
      .ok (newHead, indexed)) :
    ExtendsPrefix store.indexNodes indexed.indexNodes head newHead point := by
  intro pieces forest stored
  obtain ⟨indexNodes, extended, rfl, kept, extension⟩ := extendIndex_ok stored done
  exact ⟨extended, kept, extension⟩

variable {localMessages : Nat}

theorem extendIndex_frame
    (done : store.extendIndex nodeId head source localMessages = .ok (newHead, indexed)) :
    indexed.histories = store.histories ∧ indexed.transcripts = store.transcripts := by
  obtain ⟨_, rfl⟩ := extendIndex_nodes done
  exact ⟨rfl, rfl⟩

theorem ConversationRepository.ForksSession.branchChange
    (forks : ConversationRepository.ForksSession store after sourceSessionId
      (repo.sessionHistoryId target.sessionId) nodeId session) :
    BranchChange store after (forkPoint repo store
      (.createForkWithOperation sourceSessionId target revision operation nodeId)) := by
  obtain ⟨ledger, source, sourceHistoryId, sourceHistory, sourceHead, newHead, indexed, child,
    projections, found, _, historyNamed, historyFound, headed, above, below, extended, named,
    parent, childHead, inherited, _, fresh, headless, rfl⟩ := forks
  have histories : indexed.histories = store.histories := (extendIndex_frame extended).1
  have transcripts : indexed.transcripts = store.transcripts := (extendIndex_frame extended).2
  rw [histories, ← named] at fresh
  rw [transcriptHead, transcripts, ← named] at headless
  have point : forkPoint repo store
      (.createForkWithOperation sourceSessionId target revision operation nodeId) =
        some ⟨child.historyId, sourceHistoryId, (ConversationRepository.committedTotal source
          (sourceHistory.inheritedMessageCount + sourceHead.messageCount)).toNat -
            sourceHistory.inheritedMessageCount⟩ := by
    simp [forkPoint, found, historyNamed, historyFound, headed, fresh, ← named]
  have extension := extendsPrefix_of_ok ⟨child.historyId, sourceHistoryId, _⟩ extended
  rw [← childHead] at extension
  rw [point]
  refine .insert _ child ⟨rfl, sourceHistory, sourceHead, historyFound, headed, ?_, ?_, extension⟩
    fresh headless ?_
  · dsimp only
    omega
  · rw [inherited]
    dsimp only
    omega
  · refine ⟨?_, rfl, ?_⟩
    · exact congrArg (update · child.historyId (some child)) histories
    · exact congrArg (fun streams => update streams child.historyId
        (createHead child.historyId (streams child.historyId))) transcripts

theorem ConversationStore.PutsChild.branchChange (histories : indexed.histories = store.histories)
    (transcripts : indexed.transcripts = store.transcripts)
    (inherits : Inherits store indexed point child) (puts : PutsChild indexed after child) :
    BranchChange store after (some point) := by
  obtain ⟨projections, put⟩ := puts
  rcases put with ⟨fresh, headless, rfl⟩ | ⟨present, rfl⟩
  · rw [histories] at fresh
    rw [transcriptHead, transcripts] at headless
    refine .insert point child ⟨inherits.named, inherits.source⟩ fresh headless ⟨?_, rfl, ?_⟩
    · exact congrArg (update · child.historyId (some child)) histories
    · exact congrArg (fun streams => update streams child.historyId
        (createHead child.historyId (streams child.historyId))) transcripts
  · rw [histories] at present
    refine .adopt point child ⟨inherits.named, inherits.source⟩ present ⟨?_, rfl, transcripts⟩
    exact congrArg (update · child.historyId (some child)) histories

variable {call : ConversationCall}

theorem forkPoint_of_quiet (quiet : call.Quiet repo store) :
    forkPoint repo store call = none := by
  cases call with
  | fork => cases quiet
  | createForkWithOperation =>
    obtain ⟨child, present⟩ := quiet
    simp [forkPoint, present]
  | _ => rfl

theorem forkPoint_of_rewrites (treats : call.Rewrites repo store sessionId current record) :
    forkPoint repo store call = none := by
  cases call with
  | fork | createForkWithOperation => cases treats
  | _ => rfl

theorem forkPoint_of_creates (asked : call.Creates repo store session) :
    forkPoint repo store call = none := by
  cases call with
  | fork | createForkWithOperation => cases asked
  | _ => rfl

theorem branchChange_of_ok (done : call.run repo store = .ok after) :
    BranchChange store after (forkPoint repo store call) := by
  cases ConversationCall.returned_of_ok done with
  | quiet kept silent =>
    rw [forkPoint_of_quiet silent, kept]
    exact .same ⟨rfl, rfl, rfl⟩
  | rewritten rewrites treats =>
    rw [forkPoint_of_rewrites treats]
    exact .same rewrites.sameBranches
  | created creates asked =>
    rw [forkPoint_of_creates asked]
    exact creates.branchChange
  | forkedSession _ _ forks => exact forks.branchChange
  | promoted fresh headless root inserted =>
    exact .root _ fresh headless root.1 root.2 (inserted ▸ .refl _)
  | @forked _ source child _ _ _ forks =>
    obtain ⟨sourceRecord, head, newHead, indexed, found, headed, extended, named, _, childHead,
      inherited, puts⟩ := fork_ok forks
    have extension := extendsPrefix_of_ok ⟨child, source, head.messageCount⟩ extended
    rw [← childHead] at extension
    obtain ⟨histories, transcripts⟩ := extendIndex_frame extended
    rw [forkPoint, headed]
    exact puts.branchChange histories transcripts
      ⟨named, sourceRecord, head, found, headed, le_refl _, inherited, extension⟩
  | @appended historyId chunks quality _ appends =>
    obtain ⟨transcript, projections, appended, rfl⟩ := appendChunks_ok appends
    exact .append historyId chunks quality transcript appended ⟨rfl, rfl, rfl⟩
  | admitted _ _ _ taken => exact .same (taken ▸ ⟨rfl, rfl, rfl⟩)
  | committed _ commits => exact .same (commits ▸ ⟨rfl, rfl, rfl⟩)
  | committedPending _ _ _ _ commits => exact .same (commits ▸ ⟨rfl, rfl, rfl⟩)

variable {lineage : Lineage} {point : Option ForkPoint} {historyId : String}

structure Grows (historyId : String) (before after : OwnerTranscript) : Prop where
  wellFormed : WellFormed historyId after
  headed : before.head ≠ none → after.head ≠ none
  more : ∃ more, after.messages = before.messages ++ more

variable {transcript : OwnerTranscript}

theorem Grows.refl (wellFormed : WellFormed historyId transcript) :
    Grows historyId transcript transcript :=
  ⟨wellFormed, id, [], (append_nil _).symm⟩

variable {before later : OwnerTranscript}

theorem Grows.length (grows : Grows historyId before later) :
    before.messages.length ≤ later.messages.length := by
  obtain ⟨more, messages⟩ := grows.more
  rw [messages, length_append]
  exact Nat.le_add_right _ _

theorem createHead_head (ownerId : String) (transcript : OwnerTranscript) :
    (createHead ownerId transcript).head ≠ none := by
  unfold createHead
  split
  case h_1 stored present =>
    rw [present]
    nofun
  case h_2 => nofun

theorem grows_createHead (wellFormed : WellFormed historyId transcript) :
    Grows historyId transcript (createHead historyId transcript) :=
  ⟨wellFormed.createHead, fun _ => createHead_head _ _, [],
    by rw [createHead_messages, append_nil]⟩

theorem grows_appendChunks (wellFormed : WellFormed historyId before)
    (done : before.appendChunks historyId chunks quality = .ok later) :
    Grows historyId before later where
  wellFormed := OwnerTranscript.appendChunks_wellFormed wellFormed done
  headed present := by
    rcases OwnerTranscript.appendChunks_ok done with ⟨_, rfl⟩ | ⟨_, _, _, _, head, _⟩
    · exact present
    · rw [head]
      nofun
  more := ⟨_, OwnerTranscript.appendChunks_messages done⟩

theorem grows_update {other : String} {transcripts : String → OwnerTranscript}
    (wellFormed : WellFormed historyId (transcripts historyId))
    (there : other = historyId → Grows historyId (transcripts historyId) transcript) :
    Grows historyId (transcripts historyId) (update transcripts other transcript
    historyId) := by
  by_cases same : historyId = other
  · subst same
    rw [update_self]
    exact there rfl
  · rw [update_of_ne same]
    exact .refl wellFormed

theorem BranchChange.grows (change : BranchChange store after point)
    (wellFormed : ∀ historyId, WellFormed historyId (store.transcripts historyId)) :
    Grows historyId (store.transcripts historyId) (after.transcripts historyId) := by
  cases change with
  | same unchanged =>
    rw [unchanged.transcripts]
    exact .refl (wellFormed historyId)
  | root history fresh headless prefixless nothing inserted =>
    rw [inserted.transcripts]
    refine grows_update (wellFormed historyId) ?_
    rintro rfl
    exact grows_createHead (wellFormed _)
  | append appendedId chunks quality transcript appended written =>
    rw [written.transcripts]
    refine grows_update (wellFormed historyId) ?_
    rintro rfl
    exact grows_appendChunks (wellFormed _) appended
  | insert point child inherits fresh headless inserted =>
    rw [inserted.transcripts]
    refine grows_update (wellFormed historyId) ?_
    rintro rfl
    exact grows_createHead (wellFormed _)
  | adopt point child inherits present adopted =>
    rw [adopted.transcripts]
    exact .refl (wellFormed historyId)

/-- What is stored for the branches agrees with the account of the forks. -/
structure Kept (store : ConversationStore) (lineage : Lineage) : Prop where
  wellFormed : ∀ historyId, WellFormed historyId (store.transcripts historyId)
  headed : ∀ historyId record, store.histories historyId = some record →
    (store.transcripts historyId).head ≠ none
  rootless : ∀ historyId, store.histories historyId = none → lineage historyId = []
  named : ∀ historyId record, store.histories historyId = some record → record.historyId = historyId
  forests : ∀ historyId record, store.histories historyId = some record →
    ((lineage historyId).map Prod.snd).sum = record.inheritedMessageCount ∧
    ∃ forest, PrefixForest store.indexNodes record.prefixIndexHeadId (lineage historyId) forest
  pieces : ∀ historyId, ∀ piece ∈ lineage historyId,
    0 < piece.2 ∧ piece.2 ≤ (store.transcripts piece.1).messages.length

theorem kept_empty : Kept {} fun _ => [] where
  wellFormed _ := wellFormed_empty
  headed := nofun
  rootless _ _ := rfl
  named := nofun
  forests := nofun
  pieces := nofun

section

variable (kept : Kept store lineage)
include kept

theorem Kept.pieces_grow (grows : ∀ historyId, Grows historyId (store.transcripts historyId)
    (after.transcripts historyId)) : ∀ historyId, ∀ piece ∈ lineage historyId,
      0 < piece.2 ∧ piece.2 ≤ (after.transcripts piece.1).messages.length := by
  intro historyId piece member
  obtain ⟨positive, within⟩ := kept.pieces historyId piece member
  exact ⟨positive, within.trans (grows piece.1).length⟩

theorem Kept.same (unchanged : SameBranches store after) :
    Kept after lineage where
  wellFormed := by
    rw [unchanged.transcripts]
    exact kept.wellFormed
  headed := by
    rw [unchanged.transcripts, unchanged.histories]
    exact kept.headed
  rootless := by
    rw [unchanged.histories]
    exact kept.rootless
  named := by
    rw [unchanged.histories]
    exact kept.named
  forests := by
    rw [unchanged.histories, unchanged.indexNodes]
    exact kept.forests
  pieces := by
    rw [unchanged.transcripts]
    exact kept.pieces

theorem Kept.root (fresh : store.histories history.historyId = none)
    (prefixless : history.prefixIndexHeadId = none) (nothing : history.inheritedMessageCount = 0)
    (grows : ∀ historyId, Grows historyId (store.transcripts historyId)
      ((store.insertHistory history).transcripts historyId)) :
    Kept (store.insertHistory history) lineage where
  wellFormed historyId := (grows historyId).wellFormed
  headed historyId record found := by
    by_cases same : historyId = history.historyId
    · subst same
      rw [insertHistory_transcripts_self]
      exact createHead_head _ _
    · rw [insertHistory_histories_of_ne _ same] at found
      exact (grows historyId).headed (kept.headed historyId record found)
  rootless historyId absent := by
    by_cases same : historyId = history.historyId
    · rw [same]
      exact kept.rootless _ fresh
    · rw [insertHistory_histories_of_ne _ same] at absent
      exact kept.rootless historyId absent
  named historyId record found := by
    by_cases same : historyId = history.historyId
    · subst same
      rw [insertHistory_histories_self, Option.some.injEq] at found
      rw [found]
    · rw [insertHistory_histories_of_ne _ same] at found
      exact kept.named historyId record found
  forests historyId record found := by
    by_cases same : historyId = history.historyId
    · subst same
      rw [insertHistory_histories_self, Option.some.injEq] at found
      subst found
      rw [kept.rootless _ fresh, prefixless, nothing]
      exact ⟨rfl, [], prefixForest_nil⟩
    · rw [insertHistory_histories_of_ne _ same] at found
      exact kept.forests historyId record found
  pieces := kept.pieces_grow grows

end

theorem frozenPiece_sum :
    ((frozenPiece sourceHistoryId localMessages).map Prod.snd).sum = localMessages := by
  unfold frozenPiece
  split
  case isTrue => rfl
  case isFalse none =>
    rw [map_nil, sum_nil]
    omega

theorem Kept.child (kept : Kept store lineage) {point : ForkPoint}
    {child : ConversationHistoryRecord} (inherits : Inherits store after point child)
    (histories : after.histories = update store.histories child.historyId (some child))
    (headed : (after.transcripts child.historyId).head ≠ none) (grows : ∀ historyId,
      Grows historyId (store.transcripts historyId) (after.transcripts historyId)) :
    Kept after (lineage.forked point) := by
  obtain ⟨source, head, found, sourceHead, within, inherited, extension⟩ := inherits.source
  obtain ⟨sum, forest, stored⟩ := kept.forests _ _ found
  obtain ⟨extended, larger, childForest⟩ := extension _ _ stored
  have named := inherits.named
  refine ⟨fun historyId => (grows historyId).wellFormed, ?_, ?_, ?_, ?_, ?_⟩
  · intro historyId record present
    by_cases same : historyId = child.historyId
    · rw [same]
      exact headed
    · rw [histories, update_of_ne same] at present
      exact (grows historyId).headed (kept.headed historyId record present)
  · intro historyId absent
    by_cases same : historyId = child.historyId
    · rw [histories, same, update_self] at absent
      cases absent
    · rw [histories, update_of_ne same] at absent
      rw [Lineage.forked, update_of_ne (named ▸ same)]
      exact kept.rootless historyId absent
  · intro historyId record present
    by_cases same : historyId = child.historyId
    · rw [histories, same, update_self, Option.some.injEq] at present
      rw [same, present]
    · rw [histories, update_of_ne same] at present
      exact kept.named historyId record present
  · intro historyId record present
    by_cases same : historyId = child.historyId
    · rw [histories, same, update_self, Option.some.injEq] at present
      subst present
      rw [same, Lineage.forked, named, update_self, map_append, sum_append, sum,
        frozenPiece_sum, inherited]
      exact ⟨rfl, extended, childForest⟩
    · rw [histories, update_of_ne same] at present
      rw [Lineage.forked, update_of_ne (named ▸ same)]
      obtain ⟨otherSum, otherForest, otherStored⟩ := kept.forests historyId record present
      exact ⟨otherSum, otherForest, otherStored.mono larger⟩
  · intro historyId piece member
    rw [Lineage.forked] at member
    by_cases same : historyId = point.childHistoryId
    · rw [same, update_self] at member
      rcases mem_append.mp member with old | new
      · exact kept.pieces_grow grows _ piece old
      · unfold frozenPiece at new
        split at new
        case isTrue positive =>
          rw [mem_singleton.mp new]
          refine ⟨positive, within.trans ?_⟩
          obtain ⟨storedHead, present, rfl⟩ := Option.map_eq_some_iff.mp sourceHead
          rw [← (kept.wellFormed _).length_messages present]
          exact (grows _).length
        case isFalse => cases new
    · rw [update_of_ne same] at member
      exact kept.pieces_grow grows historyId piece member

theorem Kept.change (kept : Kept store lineage) (change : BranchChange store after point) :
    Kept after (lineage.after point) := by
  have grows : ∀ historyId,
      Grows historyId (store.transcripts historyId) (after.transcripts historyId) :=
    fun historyId => change.grows kept.wellFormed
  cases change with
  | same unchanged => exact kept.same unchanged
  | root history fresh headless prefixless nothing inserted =>
    rw [inserted.transcripts] at grows
    exact (kept.root fresh prefixless nothing grows).same inserted
  | append historyId chunks quality transcript appended written =>
    rw [written.transcripts] at grows
    refine Kept.same ?_ written
    refine ⟨fun other => (grows other).wellFormed, ?_, kept.rootless, kept.named, kept.forests,
      kept.pieces_grow grows⟩
    intro other record found
    exact (grows other).headed (kept.headed other record found)
  | insert point child inherits fresh headless inserted =>
    refine kept.child inherits inserted.histories ?_ grows
    rw [inserted.transcripts, insertHistory_transcripts_self]
    exact createHead_head _ _
  | adopt point child inherits present adopted =>
    obtain ⟨existing, found⟩ := present
    exact kept.child inherits adopted.histories
      ((grows _).headed (kept.headed _ existing found)) grows

variable {first last : Branches} {labels : List ConversationLabel}

theorem kept_step (step : (branchSystem repo).step first label last)
    (kept : Kept first.store first.lineage) : Kept last.store last.lineage := by
  rcases callSystem_cases step with ⟨_, done⟩ | ⟨_, _, _, rfl⟩
  · simp only [Branches.run, bind_eq_ok, pure_eq_ok] at done
    obtain ⟨after, ran, rfl⟩ := done
    exact kept.change (branchChange_of_ok ran)
  · exact kept

theorem kept_run (run : Run (branchSystem repo) first labels last)
    (kept : Kept first.store first.lineage) : Kept last.store last.lineage := by
  induction run with
  | nil => exact kept
  | cons step _ ih => exact ih (kept_step step kept)

theorem run_branches {before later : ConversationStore}
    (run : Run (conversationSystem repo) before labels later) (lineage : Lineage) :
    ∃ account, Run (branchSystem repo) ⟨before, lineage⟩ labels ⟨later, account⟩ := by
  induction run generalizing lineage with
  | nil => exact ⟨lineage, .nil _⟩
  | @cons first middle last label labels step _ ih =>
    rcases callSystem_cases step with ⟨quiet, done⟩ | ⟨raised, loud, failed, rfl⟩
    · obtain ⟨account, rest⟩ := ih (lineage.after (forkPoint repo first label.call))
      refine ⟨account, .cons ?_ rest⟩
      simp only [branchSystem, callSystem, Branches.run, done, ok_bind]
      exact ⟨quiet, rfl⟩
    · obtain ⟨account, rest⟩ := ih lineage
      refine ⟨account, .cons ?_ rest⟩
      simp only [branchSystem, callSystem, Branches.run, failed, error_bind]
      exact ⟨loud, trivial⟩

/-- The stored forest of a branch: skew-binary, with the counts added up, and short enough
to be read. -/
structure SkewPrefix (store : ConversationStore) (record : ConversationHistoryRecord)
    (forest : List (SkewTree IndexNode)) : Prop where
  counted : ForestAt store.indexNodes record.prefixIndexHeadId forest
  perfect : ∀ tree ∈ forest, tree.Perfect
  powers : ∀ tree ∈ forest, ∃ height, tree.own.treeSegmentCount + 1 = 2 ^ (height + 1)
  increasing : SkewForest.Increasing (forest.map fun tree => tree.own.treeSegmentCount)
  messages : (forest.map fun tree => tree.own.treeMessageCount).sum = record.inheritedMessageCount
  distinct : DistinctNodes forest
  readable : (forest.map fun tree => tree.own.treeSegmentCount).sum < 2 ^ 63 →
    store.getForestRoots record.prefixIndexHeadId 64 = .ok (forest.map SkewTree.own)

variable {forest : List (SkewTree IndexNode)} {nodes : IndexNodes}

theorem ForestAt.segmentCounts (represents : ForestAt nodes head forest) :
    forest.map (fun tree => tree.own.treeSegmentCount) = forest.map SkewTree.size := by
  induction forest generalizing head with
  | nil => rfl
  | cons tree rest ih =>
    obtain ⟨_, treeAt, restAt⟩ := represents
    rw [map_cons, map_cons, ih restAt, treeAt.segmentCount]

theorem ForestAt.treeAt (represents : ForestAt nodes head forest) (member : tree ∈ forest) :
    TreeAt nodes tree := by
  induction forest generalizing head with
  | nil => cases member
  | cons first rest ih =>
    obtain ⟨_, firstAt, restAt⟩ := represents
    rcases mem_cons.mp member with rfl | later
    · exact firstAt
    · exact ih restAt later

theorem Kept.skewPrefix (kept : Kept store lineage)
    (found : store.histories historyId = some record) :
    ∃ forest, SkewPrefix store record forest := by
  obtain ⟨sum, forest, stored⟩ := kept.forests historyId record found
  have counts := stored.represents.segmentCounts
  refine ⟨forest, stored.represents, stored.skew.perfect, ?_, ?_, ?_, stored.distinct, ?_⟩
  · intro tree member
    rw [(stored.represents.treeAt member).segmentCount]
    exact (stored.skew.perfect tree member).size_succ
  · rw [counts]
    exact stored.skew.increasing
  · have weights := stored.represents.messageCounts
    rw [stored.weight, sum, map_map] at weights
    exact weights
  · intro bounded
    rw [counts] at bounded
    have few : forest.length ≤ 63 := stored.skew.length_le bounded
    rw [getForestRoots_eq stored.represents stored.distinct (by decide)
      (.inr (by omega)), take_of_length_le (by omega)]

/-- After every run of calls, the prefix forest of every stored branch is skew-binary,
its counts add up to what the branch inherits, and it can be read below 2^63 segments. -/
theorem prefix_forests_are_skew_binary {store : ConversationStore}
    (run : Run (conversationSystem repo) {} labels store)
    {record : ConversationHistoryRecord} (found : store.histories historyId = some record) :
    ∃ forest, SkewPrefix store record forest := by
  obtain ⟨account, tracked⟩ := run_branches run fun _ => []
  exact (kept_run tracked kept_empty).skewPrefix found

def sampleRepository : ConversationRepository := ⟨"t", fun sessionId => sessionId, 1000⟩

def sampleSession : SessionRecord where
  sessionId := "s"
  ownerPrincipalId := "p"
  status := .open
  revision := 0
  cwd := none
  createdAt := 0
  updatedAt := 0
  closedAt := none
  activeExecutionId := none
  agentId := "a"
  historyId := some "h0"
  metadata := []

def sampleMessages (ownerId : String) (count : Nat) : List TranscriptChunk :=
  [⟨ownerId, 0, .raw, replicate count (⟨.request, [.other "m"], ""⟩ : ModelMessage)⟩]

def sampleForks : List ConversationCall :=
  [.promoteHistory sampleSession "h0", .appendChunks "h0" (sampleMessages "h0" 10) none none,
    .fork "t" "h0" "h1" "s" "n1", .appendChunks "h1" (sampleMessages "h1" 2) none none,
    .fork "t" "h1" "h2" "s" "n2", .appendChunks "h2" (sampleMessages "h2" 3) none none,
    .fork "t" "h2" "h3" "s" "n3"]

def sampleStore : ConversationStore :=
  (playCalls (ConversationCall.run sampleRepository) {} sampleForks).1

def sampleBranch : ConversationHistoryRecord :=
  ⟨"h3", "s", some "h2", some "n3", 15, by decide, by decide, by decide⟩

theorem sample_forest_skew_binary : ∃ forest, SkewPrefix sampleStore sampleBranch forest := by
  have run : Run (conversationSystem sampleRepository) {}
      (playCalls (ConversationCall.run sampleRepository) {} sampleForks).2 sampleStore :=
    run_playCalls _ sampleForks
  have found : sampleStore.histories "h3" = some sampleBranch := by decide +kernel
  exact prefix_forests_are_skew_binary run found

end Linktools.Conversation
