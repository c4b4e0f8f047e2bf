import Linktools.Library.Machine
import Linktools.Transcript.RangeReads

namespace Linktools.Transcript

open Linktools.Core Library OwnerTranscript Function
open List hiding count head span

/-! Canonical references to single messages, resolved owner by owner and answered in
the caller's order. -/

inductive PersistenceDomain
  | conversation
  | execution
  | memory
  | artifact
  | task
  | evaluation
  | trace
  | checkpoint
deriving DecidableEq

structure TranscriptMessageRef where
  sourceDomain : PersistenceDomain
  ownerId : String
  messageIndex : Nat
deriving DecidableEq

structure LoadedContextMessage where
  message : ModelMessage
  source : Option TranscriptMessageRef
deriving DecidableEq

/-- The repositories that a reference may name: the resolving one and its context
sources. -/
structure TranscriptSources where
  runtimeDomain : PersistenceDomain
  own : String → OwnerTranscript
  contextSources : PersistenceDomain → Option (String → OwnerTranscript) := fun _ => none

def TranscriptMessageRef.group (ref : TranscriptMessageRef) : PersistenceDomain × String :=
  (ref.sourceDomain, ref.ownerId)

/-- The windows of consecutive indexes, from a window that is still open on. -/
def indexWindows (window : Span) : List Nat → List Span
  | [] => [window]
  | index :: rest =>
    if index = window.stop then indexWindows ⟨window.start, window.stop + 1⟩ rest
    else window :: indexWindows ⟨index, index + 1⟩ rest

def uniqueWindows (indexes : List Nat) : List Span :=
  match indexes.dedup.mergeSort with
  | [] => []
  | first :: rest => indexWindows ⟨first, first + 1⟩ rest

def indexMessages (windows : List Span) (loaded : List (List ModelMessage)) :
    List (Nat × ModelMessage) :=
  (windows.zip loaded).flatMap fun (window, messages) =>
    (messages.zipIdx window.start).map Prod.swap

def OwnerTranscript.resolveGroup (transcript : OwnerTranscript) (ownerId : String)
    (indexes : List Nat) : Except Raised (List (Nat × ModelMessage)) := do
  let head ← orRaise (transcript.head.map StoredHead.head) .integrity
  refuse (∃ index ∈ indexes, head.messageCount ≤ index) .integrity
  let windows := uniqueWindows indexes
  let loaded ← transcript.loadMessageSpans ownerId
    (windows.map fun window => (↑window.start, ↑window.stop)) (some head)
  let messages ← OwnerTranscript.validateSpans windows loaded
  return indexMessages windows messages

namespace TranscriptSources

variable (sources : TranscriptSources)

def source (domain : PersistenceDomain) : Except Raised (String → OwnerTranscript) :=
  orRaise (if domain = sources.runtimeDomain then some sources.own
    else sources.contextSources domain) (.ai .storageDependencyNotReady)

/-- The messages that the references of one owner ask for, by their index. -/
def resolveOwner (refs : List TranscriptMessageRef) (group : PersistenceDomain × String) :
    Except Raised ((PersistenceDomain × String) × List (Nat × ModelMessage)) := do
  let source ← sources.source group.1
  let named := refs.filter fun ref => ref.group = group
  let mapping ← (source group.2).resolveGroup group.2 (named.map TranscriptMessageRef.messageIndex)
  return (group, mapping)

def loadReference (resolved : List ((PersistenceDomain × String) × List (Nat × ModelMessage)))
    (ref : TranscriptMessageRef) : Except Raised LoadedContextMessage := do
  let mapping ← orRaise (resolved.lookup ref.group) .integrity
  let message ← orRaise (mapping.lookup ref.messageIndex) .integrity
  return ⟨message, some ref⟩

def resolveTranscriptMessageRefs (refs : List TranscriptMessageRef) :
    Except Raised (List LoadedContextMessage) := do
  let _orderedSources ← refs.mapM fun ref => sources.source ref.sourceDomain
  let resolved ← (refs.map TranscriptMessageRef.group).eraseDups.mapM (sources.resolveOwner refs)
  refs.mapM (loadReference resolved)

end TranscriptSources

def Span.positions (span : Span) : List Nat :=
  range' span.start (span.stop - span.start)

variable {ownerId : String} {transcript : OwnerTranscript} {window : Span} {indexes : List Nat}
  {messages : List ModelMessage}

@[simp] theorem positions_single : Span.positions ⟨index, index + 1⟩ = [index] := by
  simp [Span.positions]

theorem indexWindows_positions (ordered : window.start ≤ window.stop) :
    (indexWindows window indexes).flatMap Span.positions = window.positions ++ indexes := by
  induction indexes generalizing window with
  | nil => simp [indexWindows]
  | cons index rest ih =>
    rw [indexWindows]
    split
    case isTrue next =>
      subst next
      have size : window.stop + 1 - window.start = window.stop - window.start + 1 := by omega
      have last : window.start + 1 * (window.stop - window.start) = window.stop := by omega
      rw [ih (Nat.le_succ_of_le ordered), Span.positions, size, range'_concat, last,
        append_assoc]
      rfl
    case isFalse =>
      rw [flatMap_cons, ih (Nat.le_succ _), positions_single]
      rfl

theorem uniqueWindows_positions :
    (uniqueWindows indexes).flatMap Span.positions = indexes.dedup.mergeSort := by
  unfold uniqueWindows
  split
  case h_1 empty => rw [empty, flatMap_nil]
  case h_2 first rest sorted =>
    rw [indexWindows_positions (Nat.le_succ _), sorted, positions_single]
    rfl

theorem indexWindows_ordered (ordered : window.start < window.stop) :
    ∀ span ∈ indexWindows window indexes, span.start < span.stop := by
  induction indexes generalizing window with
  | nil =>
    intro span member
    rwa [mem_singleton.mp member]
  | cons index rest ih =>
    rw [indexWindows]
    split
    case isTrue => exact ih (Nat.lt_succ_of_lt ordered)
    case isFalse =>
      intro span member
      rcases mem_cons.mp member with rfl | later
      · exact ordered
      · exact ih (Nat.lt_succ_self _) span later

theorem uniqueWindows_ordered : ∀ span ∈ uniqueWindows indexes, span.start < span.stop := by
  unfold uniqueWindows
  split
  case h_1 => exact nofun
  case h_2 => exact indexWindows_ordered (Nat.lt_succ_self _)

theorem uniqueWindows_within (within : ∀ index ∈ indexes, index < count) :
    ∀ span ∈ uniqueWindows indexes, span.start ≤ span.stop ∧ span.stop ≤ count := by
  intro span member
  have ordered := uniqueWindows_ordered span member
  have last : span.stop - 1 ∈ (uniqueWindows indexes).flatMap Span.positions :=
    mem_flatMap.mpr ⟨span, member, by rw [Span.positions, mem_range'_1]; omega⟩
  rw [uniqueWindows_positions, mem_mergeSort, mem_dedup] at last
  have := within _ last
  omega

theorem zipIdx_sliceOf (within : window.stop ≤ messages.length) :
    ((sliceOf window messages).zipIdx window.start).map (fun (message, index) =>
      (index, some message)) = window.positions.map fun index => (index, messages[index]?) := by
  apply ext_getElem?
  intro offset
  by_cases inside : offset < window.stop - window.start
  · have reaches : window.start + offset < window.stop := by omega
    simp only [Span.positions, sliceOf, getElem?_map, getElem?_zipIdx, getElem?_drop,
      getElem?_take_of_lt reaches, getElem?_range' inside, one_mul, Option.map_some]
    rw [getElem?_eq_getElem (by omega)]
    rfl
  · rw [getElem?_eq_none, getElem?_eq_none]
    · rw [length_map, Span.positions, length_range']
      omega
    · rw [length_map, length_zipIdx, length_sliceOf within]
      omega

variable {windows : List Span}

theorem indexMessages_spec (within : ∀ span ∈ windows, span.stop ≤ messages.length) :
    (indexMessages windows (windows.map fun span => sliceOf span messages)).map
        (fun (index, message) => (index, some message)) =
      (windows.flatMap Span.positions).map fun index => (index, messages[index]?) := by
  induction windows with
  | nil => rfl
  | cons window rest ih =>
    have first := zipIdx_sliceOf (within window mem_cons_self)
    have later := ih fun span member => within span (mem_cons_of_mem _ member)
    rw [flatMap_cons, map_append, ← later, ← first]
    simp [indexMessages, comp_def]

theorem exists_lookup {α β : Type} [BEq α] [LawfulBEq α] {entries : List (α × β)} {key : α}
    (listed : key ∈ entries.map Prod.fst) :
    ∃ value, entries.lookup key = some value ∧ (key, value) ∈ entries := by
  induction entries with
  | nil => cases listed
  | cons entry rest ih =>
    obtain ⟨first, value⟩ := entry
    rw [lookup_cons]
    by_cases same : key = first
    · subst same
      exact ⟨value, by simp, mem_cons_self⟩
    · rcases mem_cons.mp listed with equal | later
      · exact absurd equal same
      · obtain ⟨found, looked, member⟩ := ih later
        have test : (key == first) = false := beq_eq_false_iff_ne.mpr same
        refine ⟨found, ?_, mem_cons_of_mem _ member⟩
        rw [test]
        exact looked

section

variable (within : ∀ span ∈ windows, span.stop ≤ messages.length)
include within

theorem mem_indexMessages
    (member : entry ∈ indexMessages windows (windows.map fun span => sliceOf span messages)) :
    messages[entry.1]? = some entry.2 := by
  have listed : (entry.1, some entry.2) ∈
      (windows.flatMap Span.positions).map fun index => (index, messages[index]?) := by
    rw [← indexMessages_spec within]
    exact mem_map_of_mem (f := fun (entry : Nat × ModelMessage) => (entry.1, some entry.2))
      member
  obtain ⟨index, _, same⟩ := mem_map.mp listed
  rw [Prod.mk.injEq] at same
  rw [← same.1]
  exact same.2

theorem indexMessages_keys :
    (indexMessages windows (windows.map fun span => sliceOf span messages)).map Prod.fst =
      windows.flatMap Span.positions := by
  have keys := congrArg (map Prod.fst) (indexMessages_spec within)
  simpa [comp_def] using keys

end

theorem resolveGroup_spec (wellFormed : WellFormed ownerId transcript) {stored : StoredHead}
    (head : transcript.head = some stored)
    (within : ∀ index ∈ indexes, index < transcript.messages.length) :
    ∃ mapping, transcript.resolveGroup ownerId indexes = .ok mapping ∧ ∀ index ∈ indexes, ∃ message,
        mapping.lookup index = some message ∧ transcript.messages[index]? = some message := by
  have count := wellFormed.length_messages head
  have windows := uniqueWindows_within within
  have observed : OwnerTranscript.Observable ownerId transcript.messages.length transcript
      (some stored.head) := ⟨stored.head, rfl, wellFormed.owner stored head, count.symm⟩
  have loaded := loadMessageSpans_eq wellFormed observed windows (le_refl _)
  have present : ¬∃ index ∈ indexes, stored.head.messageCount ≤ index := by
    rintro ⟨index, member, above⟩
    have := within index member
    omega
  refine ⟨indexMessages (uniqueWindows indexes)
    ((uniqueWindows indexes).map fun span => sliceOf span transcript.messages), ?_, ?_⟩
  · rw [resolveGroup, head, Option.map_some, orRaise, ok_bind, refuse_of_not present, ok_bind]
    dsimp only
    rw [loaded, ok_bind, validateSpans_eq fun span member => (windows span member).2]
    rfl
  · intro index member
    have inside : index ∈ (indexMessages (uniqueWindows indexes)
        ((uniqueWindows indexes).map fun span => sliceOf span transcript.messages)).map
          Prod.fst := by
      rw [indexMessages_keys fun span member => (windows span member).2, uniqueWindows_positions,
        mem_mergeSort, mem_dedup]
      exact member
    obtain ⟨message, looked, entry⟩ := exists_lookup inside
    exact ⟨message, looked, mem_indexMessages (fun span member => (windows span member).2) entry⟩

namespace TranscriptSources

variable {sources : TranscriptSources} {refs : List TranscriptMessageRef}

/-- The reference names a stored message of a stream that can be read. -/
def Resolves (sources : TranscriptSources) (ref : TranscriptMessageRef) : Prop :=
  ∃ streams stored, sources.source ref.sourceDomain = .ok streams ∧
    WellFormed ref.ownerId (streams ref.ownerId) ∧ (streams ref.ownerId).head = some stored ∧
    ref.messageIndex < (streams ref.ownerId).messages.length

def Answers (sources : TranscriptSources) (ref : TranscriptMessageRef)
    (loaded : LoadedContextMessage) : Prop :=
  loaded.source = some ref ∧ ∃ streams, sources.source ref.sourceDomain = .ok streams ∧
    (streams ref.ownerId).messages[ref.messageIndex]? = some loaded.message

def Resolved (sources : TranscriptSources) (refs : List TranscriptMessageRef)
    (group : PersistenceDomain × String)
    (entry : (PersistenceDomain × String) × List (Nat × ModelMessage)) : Prop :=
  entry.1 = group ∧ ∀ ref ∈ refs, ref.group = group → ∃ message,
    entry.2.lookup ref.messageIndex = some message ∧ sources.Answers ref ⟨message, some ref⟩

theorem resolveOwner_spec (resolves : ∀ ref ∈ refs, sources.Resolves ref)
    (listed : group ∈ refs.map TranscriptMessageRef.group) :
    ∃ entry, sources.resolveOwner refs group = .ok entry ∧ sources.Resolved refs group entry := by
  obtain ⟨named, member, rfl⟩ := mem_map.mp listed
  obtain ⟨streams, stored, source, wellFormed, head, _⟩ := resolves named member
  have within : ∀ index ∈ (refs.filter fun ref => ref.group = named.group).map
      TranscriptMessageRef.messageIndex, index < (streams named.ownerId).messages.length := by
    intro index inside
    obtain ⟨ref, filtered, rfl⟩ := mem_map.mp inside
    obtain ⟨refMember, same⟩ := mem_filter.mp filtered
    simp only [TranscriptMessageRef.group, Prod.mk.injEq, decide_eq_true_eq] at same
    obtain ⟨_, _, refSource, _, _, below⟩ := resolves ref refMember
    rw [same.1, source, Except.ok.injEq] at refSource
    rwa [← refSource, same.2] at below
  obtain ⟨mapping, resolved, found⟩ := resolveGroup_spec wellFormed head within
  refine ⟨(named.group, mapping), ?_, rfl, ?_⟩
  · change (sources.source named.sourceDomain >>= _) = _
    rw [source, ok_bind]
    change (streams named.ownerId).resolveGroup named.ownerId _ >>= _ = _
    rw [resolved]
    rfl
  · intro ref refMember same
    obtain ⟨message, looked, kept⟩ := found ref.messageIndex (mem_map_of_mem
      (mem_filter.mpr ⟨refMember, decide_eq_true same⟩))
    simp only [TranscriptMessageRef.group, Prod.mk.injEq] at same
    refine ⟨message, looked, rfl, streams, ?_, ?_⟩
    · rw [same.1, source]
    · rw [same.2]
      exact kept

variable {resolved : List ((PersistenceDomain × String) × List (Nat × ModelMessage))}

theorem resolved_keys (entries : List.Forall₂ (sources.Resolved refs) groups resolved) :
    resolved.map Prod.fst = groups := by
  induction entries with
  | nil => rfl
  | cons first _ ih => rw [map_cons, first.1, ih]

variable {ref : TranscriptMessageRef}

section

variable (entries : List.Forall₂ (sources.Resolved refs) groups resolved)
include entries

theorem resolved_entry
    (inside : entry ∈ resolved) (member : ref ∈ refs) (same : ref.group = entry.1) :
    ∃ message, entry.2.lookup ref.messageIndex = some message ∧
      sources.Answers ref ⟨message, some ref⟩ := by
  induction entries with
  | nil => cases inside
  | cons first _ ih =>
    rcases mem_cons.mp inside with rfl | later
    · exact first.2 ref member (same.trans first.1)
    · exact ih later

theorem loadReference_spec (member : ref ∈ refs) (listed : ref.group ∈ groups) :
    ∃ loaded, loadReference resolved ref = .ok loaded ∧ sources.Answers ref loaded := by
  obtain ⟨mapping, looked, entry⟩ := exists_lookup ((resolved_keys entries).symm ▸ listed)
  obtain ⟨message, foundMessage, answers⟩ := resolved_entry entries entry member rfl
  refine ⟨⟨message, some ref⟩, ?_, answers⟩
  rw [loadReference, looked, orRaise, ok_bind, foundMessage]
  rfl

end

theorem resolveTranscriptMessageRefs_spec (resolves : ∀ ref ∈ refs, sources.Resolves ref) :
    ∃ loaded, sources.resolveTranscriptMessageRefs refs = .ok loaded ∧
      List.Forall₂ sources.Answers refs loaded := by
  have sourced : ∀ ref ∈ refs, ∃ streams, sources.source ref.sourceDomain = .ok streams ∧ True := by
    intro ref member
    obtain ⟨streams, _, source, _⟩ := resolves ref member
    exact ⟨streams, source, trivial⟩
  obtain ⟨ordered, mapped, _⟩ := exists_mapM sourced
  obtain ⟨resolved, resolvedGroups, entries⟩ := exists_mapM fun group listed =>
    resolveOwner_spec resolves (mem_eraseDups.mp listed)
  obtain ⟨loaded, answered, answers⟩ := exists_mapM fun ref member =>
    loadReference_spec entries member
      (mem_eraseDups.mpr (mem_map_of_mem (f := TranscriptMessageRef.group) member))
  refine ⟨loaded, ?_, answers⟩
  rw [resolveTranscriptMessageRefs, mapped, ok_bind, resolvedGroups, ok_bind, answered]

end TranscriptSources

open Library.Machine

abbrev Transcripts := String → OwnerTranscript

inductive TranscriptCall
  | createHead (ownerId : String)
  | appendChunks (ownerId : String) (chunks : List TranscriptChunk)
      (quality : Option HistoryQuality)

def TranscriptCall.run (state : Transcripts) : TranscriptCall → Except Raised Transcripts
  | .createHead ownerId =>
    .ok (update state ownerId (Transcript.createHead ownerId (state ownerId)))
  | .appendChunks ownerId chunks quality => do
    let after ← (state ownerId).appendChunks ownerId chunks quality
    return update state ownerId after

abbrev TranscriptLabel := Answered TranscriptCall Raised

def transcriptSystem : Machine Transcripts TranscriptLabel :=
  callSystem (fun _ => {}) TranscriptCall.run

def TranscriptCall.content (ownerId : String) : TranscriptCall → List ModelMessage
  | .createHead _ => []
  | .appendChunks target chunks _ =>
    if target = ownerId then chunks.flatMap TranscriptChunk.content else []

def appendedBy (ownerId : String) (label : TranscriptLabel) : List ModelMessage :=
  match label.raised with
  | none => label.call.content ownerId
  | some _ => []

def appended (labels : List TranscriptLabel) (ownerId : String) : List ModelMessage :=
  labels.flatMap (appendedBy ownerId)

variable {first last state : Transcripts} {label : TranscriptLabel} {labels : List TranscriptLabel}
  {stored : StoredHead}

theorem run_appends (done : TranscriptCall.run first call = .ok last)
    (wellFormed : WellFormed ownerId (first ownerId)) : WellFormed ownerId (last ownerId) ∧
      (last ownerId).messages = (first ownerId).messages ++ call.content ownerId := by
  cases call with
  | createHead target =>
    cases done
    rw [TranscriptCall.content, append_nil]
    by_cases same : ownerId = target
    · subst same
      rw [update_self]
      exact ⟨wellFormed.createHead, createHead_messages⟩
    · rw [update_of_ne same]
      exact ⟨wellFormed, rfl⟩
  | appendChunks =>
    simp only [TranscriptCall.run, bind_eq_ok, pure_eq_ok] at done
    obtain ⟨after, appended, rfl⟩ := done
    rw [TranscriptCall.content]
    split
    case isTrue same =>
      subst same
      rw [update_self]
      exact ⟨appendChunks_wellFormed wellFormed appended, appendChunks_messages appended⟩
    case isFalse other =>
      rw [update_of_ne (Ne.symm other), append_nil]
      exact ⟨wellFormed, rfl⟩

theorem transcriptSystem_step (step : transcriptSystem.step first label last)
    (wellFormed : WellFormed ownerId (first ownerId)) : WellFormed ownerId (last ownerId) ∧
      (last ownerId).messages = (first ownerId).messages ++ appendedBy ownerId label := by
  rcases callSystem_cases step with ⟨quiet, done⟩ | ⟨raised, loud, _, rfl⟩
  · rw [appendedBy, quiet]
    exact run_appends done wellFormed
  · rw [appendedBy, loud, append_nil]
    exact ⟨wellFormed, rfl⟩

theorem transcriptSystem_run (run : Run transcriptSystem first labels last)
    (wellFormed : WellFormed ownerId (first ownerId)) : WellFormed ownerId (last ownerId) ∧
      (last ownerId).messages = (first ownerId).messages ++ appended labels ownerId := by
  induction run with
  | nil => exact ⟨wellFormed, (append_nil _).symm⟩
  | cons step _ ih =>
    obtain ⟨kept, messages⟩ := transcriptSystem_step step wellFormed
    obtain ⟨keptLater, later⟩ := ih kept
    exact ⟨keptLater, by rw [later, messages, append_assoc]; rfl⟩

/-- Every read of one owner returns what it asks for of the appended messages. -/
structure ReadsReturn (ownerId : String) (transcript : OwnerTranscript)
    (head : TranscriptHeadRecord) (messages : List ModelMessage) : Prop where
  counted : messages.length = head.messageCount
  iterMessageRange : ∀ start stop : Nat, start ≤ stop → stop ≤ head.messageCount →
    transcript.iterMessageRange ownerId start stop = .ok (sliceOf ⟨start, stop⟩ messages)
  loadMessageSpans : ∀ spans : List Span, ∀ observedHead ∈ [none, some head],
    (∀ span ∈ spans, span.start ≤ span.stop ∧ span.stop ≤ head.messageCount) →
    transcript.loadMessageSpans ownerId
        (spans.map fun span => ((span.start : Int), (span.stop : Int))) observedHead =
      .ok (spans.map fun span => sliceOf span messages)
  loadMessages : transcript.loadMessages = messages

theorem WellFormed.readsReturn (wellFormed : WellFormed ownerId transcript)
    (head : transcript.head = some stored) :
    ReadsReturn ownerId transcript stored.head transcript.messages where
  counted := wellFormed.length_messages head
  iterMessageRange start stop ordered within :=
    iterMessageRange_eq wellFormed head ordered (within.trans (wellFormed.length_messages head).ge)
  loadMessageSpans spans observedHead known within := by
    apply loadMessageSpans_eq wellFormed ?_ within (wellFormed.length_messages head).ge
    refine ⟨stored.head, ?_, wellFormed.owner stored head, rfl⟩
    rcases mem_cons.mp known with rfl | later
    · rw [head]
      rfl
    · rw [mem_singleton.mp later]
      rfl
  loadMessages := loadMessages_eq wellFormed

def Counted (state : Transcripts) (ref : TranscriptMessageRef) : Prop :=
  ∃ stored, (state ref.ownerId).head = some stored ∧ ref.messageIndex < stored.head.messageCount

/-- After any run of calls on any owners, every read returns the messages that it asks
for out of everything that has been appended. -/
theorem transcript_reads_return_appended (run : Run transcriptSystem (fun _ => {}) labels state) :
    (∀ ownerId stored, (state ownerId).head = some stored →
      ReadsReturn ownerId (state ownerId) stored.head (appended labels ownerId)) ∧
    ∀ sources : TranscriptSources, sources.own = state → ∀ refs : List TranscriptMessageRef,
      (∀ ref ∈ refs, ref.sourceDomain = sources.runtimeDomain ∧ Counted state ref) →
      ∃ loaded, sources.resolveTranscriptMessageRefs refs = .ok loaded ∧
        List.Forall₂ (fun ref answer => answer.source = some ref ∧
          (appended labels ref.ownerId)[ref.messageIndex]? = some answer.message) refs loaded := by
  have kept : ∀ ownerId, WellFormed ownerId (state ownerId) ∧
      (state ownerId).messages = appended labels ownerId :=
    fun ownerId => transcriptSystem_run run wellFormed_empty
  constructor
  · intro ownerId stored head
    obtain ⟨wellFormed, messages⟩ := kept ownerId
    rw [← messages]
    exact wellFormed.readsReturn head
  · intro sources own refs counted
    have source : ∀ ref ∈ refs, sources.source ref.sourceDomain = .ok state := by
      intro ref member
      rw [TranscriptSources.source, if_pos (counted ref member).1, own]
      rfl
    have resolves : ∀ ref ∈ refs, sources.Resolves ref := by
      intro ref member
      obtain ⟨_, stored, head, below⟩ := counted ref member
      have wellFormed := (kept ref.ownerId).1
      refine ⟨state, stored, source ref member, wellFormed, head, ?_⟩
      rwa [wellFormed.length_messages head]
    obtain ⟨loaded, resolved, answers⟩ :=
      TranscriptSources.resolveTranscriptMessageRefs_spec resolves
    refine ⟨loaded, resolved, ?_⟩
    rw [forall₂_iff_zip] at answers ⊢
    refine ⟨answers.1, ?_⟩
    intro ref answer paired
    obtain ⟨named, streams, streamSource, message⟩ := answers.2 paired
    rw [source ref (of_mem_zip paired).1, Except.ok.injEq] at streamSource
    rw [← streamSource, (kept ref.ownerId).2] at message
    exact ⟨named, message⟩

def sampleMessage (content : String) : ModelMessage := ⟨.request, [.other content], ""⟩

/-- Three messages in two appends, the second one tried at a stale index before. -/
def sampleCalls : List TranscriptCall :=
  let repo : TranscriptRepository := ⟨fun _ => 10⟩
  [.createHead "s",
    .appendChunks "s" (repo.prepareChunks "s" [sampleMessage "a", sampleMessage "b"] 0) none,
    .appendChunks "s" (repo.prepareChunks "s" [sampleMessage "c"] 1) none,
    .appendChunks "s" (repo.prepareChunks "s" [sampleMessage "c"] 2) none]

def sampleTranscripts : Transcripts := (playCalls TranscriptCall.run (fun _ => {}) sampleCalls).1

theorem sample_windows_read :
    (sampleTranscripts "s").loadMessageSpans "s" [(2, 3), (0, 2), (1, 1)] none =
      .ok [[sampleMessage "c"], [sampleMessage "a", sampleMessage "b"], []] := by
  have head : (sampleTranscripts "s").head = some ⟨⟨"s", 3, 2, .complete, none, 0⟩, 2⟩ := by
    decide +kernel
  have messages : appended (playCalls TranscriptCall.run (fun _ => {}) sampleCalls).2 "s" =
      [sampleMessage "a", sampleMessage "b", sampleMessage "c"] := by
    decide +kernel
  have reads := (transcript_reads_return_appended (run_playCalls _ sampleCalls)).1 "s" _ head
  rw [messages] at reads
  exact reads.loadMessageSpans [⟨2, 3⟩, ⟨0, 2⟩, ⟨1, 1⟩] none (by simp) (by decide)

end Linktools.Transcript
