import Linktools.Core.Value
import Linktools.Library.Checked
import Linktools.Library.Keyed
import Linktools.Library.Windows
import Mathlib.Data.List.Dedup

namespace Linktools.Transcript

open Linktools.Core Library List

/-! The durable records of transcripts: messages, chunk facts, mutable heads, seek records and
pending parts. -/

inductive MessageKind
  | request
  | response
deriving DecidableEq

/-- A part of a message, the content in its canonical serialization. -/
inductive MessagePart
  | toolReturn (toolCallId content : String)
  | other (content : String)
deriving DecidableEq

/-- `envelope` is the canonical serialization of every field but the parts. -/
structure ModelMessage where
  kind : MessageKind
  parts : List MessagePart
  envelope : String
deriving DecidableEq

inductive TranscriptOrigin
  | raw
  | unknown

inductive HistoryQuality
  | complete
  | conservative
deriving DecidableEq

/-- The content archive hands back the messages that a chunk was made of. -/
structure TranscriptChunk where
  ownerId : String
  firstMessageIndex : Nat
  origin : TranscriptOrigin
  content : List ModelMessage

def TranscriptChunk.messageCount (chunk : TranscriptChunk) : Nat :=
  chunk.content.length

def TranscriptChunk.messageEnd (chunk : TranscriptChunk) : Nat :=
  chunk.firstMessageIndex + chunk.messageCount

/-- The sole mutable head of one owner's stream.  `pending` is the shell of the pending
message, its parts taken out. -/
structure TranscriptHeadRecord where
  ownerId : String
  messageCount : Nat
  chunkCount : Nat
  quality : HistoryQuality
  pending : Option ModelMessage := none
  pendingPartCount : Nat := 0
deriving DecidableEq

structure TranscriptSeekRecord where
  ownerId : String
  blockStart : Nat
  factSequence : Nat
  chunkFirstMessageIndex : Nat

structure StoredFact (α : Type) where
  sequence : Nat
  data : α
deriving DecidableEq

structure PendingPartFact where
  pendingKey : String
  chunk : TranscriptChunk

structure StoredHead where
  head : TranscriptHeadRecord
  storageRevision : Nat
deriving DecidableEq

/-- Everything that is stored for one owner.  The pending stream of each future message
index is kept in sequence order, as the chunk facts are. -/
structure OwnerTranscript where
  head : Option StoredHead := none
  sequence : Nat := 0
  facts : List (StoredFact TranscriptChunk) := []
  seeks : List TranscriptSeekRecord := []
  pendingFacts : Nat → List (StoredFact PendingPartFact) := fun _ => []

def transcriptPageSize : Nat := 64

def transcriptChunkMaxMessages : Nat := 64

def transcriptSeekBlock : Nat := 128

def chunkTarget : Nat := 256 * 1024

/-- The facts of a stream after a sequence number, at most a page of them. -/
def listFacts {α : Type} (facts : List (StoredFact α)) (afterSequence : Option Nat)
    (limit : Nat) : List (StoredFact α) :=
  (facts.filter fun fact => afterSequence.all (· < fact.sequence)).take limit

namespace OwnerTranscript

def chunks (transcript : OwnerTranscript) : List TranscriptChunk :=
  transcript.facts.map StoredFact.data

def messages (transcript : OwnerTranscript) : List ModelMessage :=
  transcript.chunks.flatMap TranscriptChunk.content

def seekAt (transcript : OwnerTranscript) (blockStart : Nat) : Option TranscriptSeekRecord :=
  rowAt TranscriptSeekRecord.blockStart transcript.seeks blockStart

end OwnerTranscript

/-- The repository of one domain; `encodedSize` is the length of a message's encoding
as the single item of a list. -/
structure TranscriptRepository where
  encodedSize : ModelMessage → Nat

def emptyHead (ownerId : String) : TranscriptHeadRecord where
  ownerId := ownerId
  messageCount := 0
  chunkCount := 0
  quality := .complete

def createHead (ownerId : String) (transcript : OwnerTranscript) : OwnerTranscript :=
  match transcript.head with
  | some _ => transcript
  | none => { transcript with head := some ⟨emptyHead ownerId, 0⟩ }

/-- The chunks follow each other from the first message index on, none of them empty. -/
def Contiguous (ownerId : String) : Nat → List TranscriptChunk → Prop
  | _, [] => True
  | first, chunk :: rest =>
    (chunk.ownerId = ownerId ∧ 0 < chunk.messageCount ∧ chunk.firstMessageIndex = first) ∧
      Contiguous ownerId (first + chunk.messageCount) rest

def messageTotal (chunks : List TranscriptChunk) : Nat :=
  (chunks.map TranscriptChunk.messageCount).sum

variable {ownerId : String} {first : Nat} {chunk : TranscriptChunk}
  {chunks left right : List TranscriptChunk} {transcript after : OwnerTranscript}
  {quality : Option HistoryQuality}

@[simp] theorem messageTotal_nil : messageTotal [] = 0 := rfl

@[simp] theorem messageTotal_cons :
    messageTotal (chunk :: chunks) = chunk.messageCount + messageTotal chunks := rfl

@[simp] theorem messageTotal_append :
    messageTotal (left ++ right) = messageTotal left + messageTotal right := by
  simp [messageTotal]

theorem length_flatMap_content :
    (chunks.flatMap TranscriptChunk.content).length = messageTotal chunks := by
  induction chunks with
  | nil => rfl
  | cons chunk rest ih =>
    rw [flatMap_cons, length_append, ih]
    rfl

theorem contiguous_append : Contiguous ownerId first (left ++ right) ↔
      Contiguous ownerId first left ∧ Contiguous ownerId (first + messageTotal left) right := by
  induction left generalizing first with
  | nil => simp [Contiguous]
  | cons chunk rest ih =>
    rw [cons_append, Contiguous, Contiguous, ih, messageTotal_cons, add_assoc]
    exact and_assoc.symm

namespace TranscriptRepository

variable (repo : TranscriptRepository)

/-- The running values of the loop in `prepare_chunks`. -/
structure ChunkDraft where
  chunks : List TranscriptChunk
  current : List ModelMessage
  currentStart : Nat
  currentSize : Nat

def ChunkDraft.candidateSize (draft : ChunkDraft) (partSize : Nat) : Nat :=
  draft.currentSize + partSize + (if draft.current = [] then 0 else 1)

def addMessage (ownerId : String) (origin : TranscriptOrigin) (draft : ChunkDraft)
    (message : ModelMessage) : ChunkDraft :=
  let partSize := repo.encodedSize message - 2
  let candidateSize := draft.candidateSize partSize
  if draft.current ≠ [] ∧ (chunkTarget < candidateSize ∨
      transcriptChunkMaxMessages ≤ draft.current.length) then
    { chunks := draft.chunks ++ [⟨ownerId, draft.currentStart, origin, draft.current⟩]
      current := [message]
      currentStart := draft.currentStart + draft.current.length
      currentSize := partSize + 2 }
  else
    { draft with current := draft.current ++ [message], currentSize := candidateSize }

def ChunkDraft.finish (ownerId : String) (origin : TranscriptOrigin) (draft : ChunkDraft) :
    List TranscriptChunk :=
  if draft.current ≠ [] then
    draft.chunks ++ [⟨ownerId, draft.currentStart, origin, draft.current⟩]
  else draft.chunks

def prepareChunks (ownerId : String) (messages : List ModelMessage) (firstMessageIndex : Nat)
    (origin : TranscriptOrigin := .raw) : List TranscriptChunk :=
  (messages.foldl (repo.addMessage ownerId origin)
    ⟨[], [], firstMessageIndex, 2⟩).finish ownerId origin

end TranscriptRepository

/-- The message index after the chunks, each of which must start where the one before it
ends. -/
def requireContiguous (ownerId : String) : Nat → List TranscriptChunk → Except Raised Nat
  | expected, [] => .ok expected
  | expected, chunk :: rest => do
    refuse (chunk.ownerId ≠ ownerId ∨ chunk.messageCount = 0 ∨
      chunk.firstMessageIndex ≠ expected) .conflict
    requireContiguous ownerId (expected + chunk.messageCount) rest

/-- The block starts that lie in a chunk and not before the base count. -/
def blockStarts (chunk : TranscriptChunk) (baseMessageCount : Nat) : List Nat :=
  let boundary :=
    (max chunk.firstMessageIndex baseMessageCount + transcriptSeekBlock - 1) /
      transcriptSeekBlock * transcriptSeekBlock
  range' boundary
    ((chunk.messageEnd - boundary + transcriptSeekBlock - 1) / transcriptSeekBlock)
    transcriptSeekBlock

def seekCandidate (ownerId : String) (fact : StoredFact TranscriptChunk) (blockStart : Nat) :
    TranscriptSeekRecord :=
  ⟨ownerId, blockStart, fact.sequence, fact.data.firstMessageIndex⟩

/-- Candidates are kept by block start, and the last one of a block counts. -/
def putCandidate (candidates : List TranscriptSeekRecord) (seek : TranscriptSeekRecord) :
    List TranscriptSeekRecord :=
  candidates.filter (·.blockStart ≠ seek.blockStart) ++ [seek]

namespace OwnerTranscript

def insertMessageSeekBoundaries (ownerId : String) (appended : List (StoredFact TranscriptChunk))
    (baseMessageCount : Nat) (transcript : OwnerTranscript) : OwnerTranscript :=
  let proposed := appended.flatMap fun fact =>
    (blockStarts fact.data baseMessageCount).map (seekCandidate ownerId fact)
  let candidates := proposed.foldl putCandidate []
  let fresh := candidates.filter fun seek => transcript.seekAt seek.blockStart = none
  { transcript with seeks := transcript.seeks ++ fresh }

def newFacts (transcript : OwnerTranscript) (chunks : List TranscriptChunk) :
    List (StoredFact TranscriptChunk) :=
  (chunks.zipIdx (transcript.sequence + 1)).map fun (chunk, sequence) => ⟨sequence, chunk⟩

def appendChunks (ownerId : String) (chunks : List TranscriptChunk)
    (quality : Option HistoryQuality) (transcript : OwnerTranscript) :
    Except Raised OwnerTranscript :=
  if chunks = [] then .ok transcript
  else do
    let stored ← orRaise transcript.head .integrity
    let baseHead := stored.head
    let expected ← requireContiguous ownerId baseHead.messageCount chunks
    let nextHead :=
      { baseHead with
        messageCount := expected, chunkCount := baseHead.chunkCount + chunks.length
        quality := quality.getD baseHead.quality }
    let appended := transcript.newFacts chunks
    let written :=
      { transcript with
        head := some ⟨nextHead, stored.storageRevision + 1⟩
        sequence := transcript.sequence + chunks.length
        facts := transcript.facts ++ appended }
    return written.insertMessageSeekBoundaries ownerId appended baseHead.messageCount

end OwnerTranscript

theorem requireContiguous_eq_ok : requireContiguous ownerId first chunks = .ok last ↔
      Contiguous ownerId first chunks ∧ last = first + messageTotal chunks := by
  induction chunks generalizing first with
  | nil => simp [requireContiguous, Contiguous, eq_comm]
  | cons chunk rest ih =>
    simp only [requireContiguous, bind_eq_ok, refuse_eq_ok, not_or, not_not, ih, Contiguous,
      messageTotal_cons, add_assoc]
    constructor
    · rintro ⟨_, ⟨owner, nonempty, start⟩, later, total⟩
      exact ⟨⟨⟨owner, Nat.pos_of_ne_zero nonempty, start⟩, later⟩, total⟩
    · rintro ⟨⟨⟨owner, nonempty, start⟩, later⟩, total⟩
      exact ⟨(), ⟨owner, Nat.ne_of_gt nonempty, start⟩, later, total⟩

/-- The seek record names a chunk of the stream that starts no later than its block. -/
def Marks (chunks : List TranscriptChunk) (seek : TranscriptSeekRecord) : Prop :=
  ∃ before chunk later, chunks = before ++ chunk :: later ∧ seek.factSequence = before.length + 1 ∧
    seek.chunkFirstMessageIndex = chunk.firstMessageIndex ∧
    chunk.firstMessageIndex ≤ seek.blockStart

structure WellFormed (ownerId : String) (transcript : OwnerTranscript) : Prop where
  sequences : transcript.facts.map StoredFact.sequence = range' 1 transcript.facts.length
  sequence : transcript.sequence = transcript.facts.length
  contiguous : Contiguous ownerId 0 transcript.chunks
  seeks : ∀ seek ∈ transcript.seeks, Marks transcript.chunks seek
  headless : transcript.head = none → transcript.facts = []
  owner : ∀ stored ∈ transcript.head, stored.head.ownerId = ownerId
  counted : ∀ stored ∈ transcript.head, stored.head.messageCount = messageTotal transcript.chunks ∧
      stored.head.chunkCount = transcript.facts.length

theorem wellFormed_empty : WellFormed ownerId {} where
  sequences := rfl
  sequence := rfl
  contiguous := trivial
  seeks := nofun
  headless := fun _ => rfl
  owner := nofun
  counted := nofun

theorem WellFormed.length_messages (wellFormed : WellFormed ownerId transcript)
    (head : transcript.head = some stored) :
    transcript.messages.length = stored.head.messageCount := by
  rw [OwnerTranscript.messages, length_flatMap_content]
  exact (wellFormed.counted stored head).1.symm

theorem WellFormed.createHead (wellFormed : WellFormed ownerId transcript) :
    WellFormed ownerId (createHead ownerId transcript) := by
  unfold Transcript.createHead
  split
  case h_1 => exact wellFormed
  case h_2 absent =>
    have empty := wellFormed.headless absent
    refine ⟨wellFormed.sequences, wellFormed.sequence, wellFormed.contiguous,
      wellFormed.seeks, nofun, ?_, ?_⟩
    · rintro _ ⟨⟩
      rfl
    · rintro _ ⟨⟩
      simp [OwnerTranscript.chunks, empty, emptyHead]

theorem createHead_messages : (createHead ownerId transcript).messages = transcript.messages := by
  unfold createHead
  split <;> rfl

theorem Marks.append (marks : Marks left seek) : Marks (left ++ right) seek := by
  obtain ⟨before, chunk, later, rfl, sequence, start, earlier⟩ := marks
  exact ⟨before, chunk, later ++ right, by simp, sequence, start, earlier⟩

theorem blockStarts_start (member : blockStart ∈ blockStarts chunk base) :
    chunk.firstMessageIndex ≤ blockStart := by
  simp only [blockStarts, mem_range', transcriptSeekBlock] at member
  omega

theorem mem_foldl_putCandidate {proposed candidates : List TranscriptSeekRecord}
    (member : seek ∈ proposed.foldl putCandidate candidates) :
    seek ∈ candidates ∨ seek ∈ proposed := by
  induction proposed generalizing candidates with
  | nil => exact .inl member
  | cons head rest ih =>
    rcases ih member with inside | later
    · rcases mem_append.mp inside with kept | added
      · exact .inl (mem_filter.mp kept).1
      · exact .inr (mem_singleton.mp added ▸ mem_cons_self)
    · exact .inr (mem_cons_of_mem _ later)

namespace OwnerTranscript

theorem newFacts_data : (transcript.newFacts chunks).map StoredFact.data = chunks := by
  simp [newFacts, Function.comp_def, zipIdx_map_fst]

theorem newFacts_sequence : (transcript.newFacts chunks).map StoredFact.sequence =
      range' (transcript.sequence + 1) chunks.length := by
  simp [newFacts, Function.comp_def, zipIdx_map_snd]

theorem newFacts_mem (member : fact ∈ transcript.newFacts chunks) :
    ∃ before later, chunks = before ++ fact.data :: later ∧
      fact.sequence = transcript.sequence + before.length + 1 := by
  obtain ⟨⟨chunk, sequence⟩, inside, rfl⟩ := mem_map.mp member
  obtain ⟨above, below, same⟩ := mem_zipIdx inside
  refine ⟨chunks.take (sequence - (transcript.sequence + 1)),
    chunks.drop (sequence - (transcript.sequence + 1) + 1), ?_, ?_⟩
  · rw [same, ← drop_eq_getElem_cons, take_append_drop]
  · change sequence = _
    rw [length_take]
    omega

variable {baseMessageCount : Nat} {appended : List (StoredFact TranscriptChunk)}

theorem insertMessageSeekBoundaries_mem {seek : TranscriptSeekRecord}
    (member : seek ∈ (insertMessageSeekBoundaries ownerId appended baseMessageCount
      transcript).seeks) : seek ∈ transcript.seeks ∨ ∃ fact ∈ appended,
      ∃ blockStart ∈ blockStarts fact.data baseMessageCount,
        seek = seekCandidate ownerId fact blockStart := by
  rcases mem_append.mp member with old | fresh
  · exact .inl old
  · rcases mem_foldl_putCandidate (mem_filter.mp fresh).1 with none | proposed
    · cases none
    · obtain ⟨fact, inside, blocks⟩ := mem_flatMap.mp proposed
      obtain ⟨blockStart, block, rfl⟩ := mem_map.mp blocks
      exact .inr ⟨fact, inside, blockStart, block, rfl⟩

section

variable (done : transcript.appendChunks ownerId chunks quality = .ok after)
include done

theorem appendChunks_ok :
    (chunks = [] ∧ after = transcript) ∨ ∃ stored, chunks ≠ [] ∧ transcript.head = some stored ∧
      Contiguous ownerId stored.head.messageCount chunks ∧ after.head = some
        ⟨{ stored.head with
            messageCount := stored.head.messageCount + messageTotal chunks
            chunkCount := stored.head.chunkCount + chunks.length
            quality := quality.getD stored.head.quality }, stored.storageRevision + 1⟩ ∧
      after.sequence = transcript.sequence + chunks.length ∧
      after.facts = transcript.facts ++ transcript.newFacts chunks ∧
      after.pendingFacts = transcript.pendingFacts ∧
      ∀ seek ∈ after.seeks, seek ∈ transcript.seeks ∨ ∃ fact ∈ transcript.newFacts chunks,
        ∃ blockStart ∈ blockStarts fact.data stored.head.messageCount,
          seek = seekCandidate ownerId fact blockStart := by
  unfold appendChunks at done
  split at done
  case isTrue empty =>
    cases done
    exact .inl ⟨empty, rfl⟩
  case isFalse nonempty =>
    simp only [bind_eq_ok, orRaise_eq_ok, requireContiguous_eq_ok, pure_eq_ok] at done
    obtain ⟨stored, head, _, ⟨contiguous, rfl⟩, rfl⟩ := done
    exact .inr ⟨stored, nonempty, head, contiguous, rfl, rfl, rfl, rfl,
      fun seek member => insertMessageSeekBoundaries_mem member⟩

theorem appendChunks_chunks : after.chunks = transcript.chunks ++ chunks := by
  rcases appendChunks_ok done with ⟨rfl, rfl⟩ | ⟨_, _, _, _, _, _, facts, _⟩
  · rw [append_nil]
  · rw [OwnerTranscript.chunks, facts, map_append, newFacts_data]
    rfl

theorem appendChunks_messages :
    after.messages = transcript.messages ++ chunks.flatMap TranscriptChunk.content := by
  rw [messages, appendChunks_chunks done, flatMap_append]
  rfl

end

theorem appendChunks_wellFormed (wellFormed : WellFormed ownerId transcript)
    (done : transcript.appendChunks ownerId chunks quality = .ok after) :
    WellFormed ownerId after := by
  have appendedChunks := appendChunks_chunks done
  rcases appendChunks_ok done with
    ⟨_, rfl⟩ | ⟨stored, nonempty, head, contiguous, afterHead, sequence, facts, _, seeks⟩
  · exact wellFormed
  · obtain ⟨messageCount, chunkCount⟩ := wellFormed.counted stored head
    have newLength : (transcript.newFacts chunks).length = chunks.length := by
      rw [← length_map StoredFact.data, newFacts_data]
    have length : after.facts.length = transcript.facts.length + chunks.length := by
      rw [facts, length_append, newLength]
    refine ⟨?_, ?_, ?_, ?_, ?_, ?_, ?_⟩
    · rw [length, facts, map_append, wellFormed.sequences, newFacts_sequence,
        wellFormed.sequence, add_comm transcript.facts.length 1, ← range'_append_1]
    · rw [sequence, wellFormed.sequence, length]
    · rw [appendedChunks, contiguous_append, zero_add, ← messageCount]
      exact ⟨wellFormed.contiguous, contiguous⟩
    · intro seek member
      rw [appendedChunks]
      rcases seeks seek member with old | ⟨fact, inside, blockStart, block, rfl⟩
      · exact (wellFormed.seeks seek old).append
      · obtain ⟨before, later, rfl, number⟩ := newFacts_mem inside
        refine ⟨transcript.chunks ++ before, fact.data, later, by simp, ?_, rfl,
          blockStarts_start block⟩
        rw [seekCandidate, number, wellFormed.sequence, length_append,
          OwnerTranscript.chunks, length_map]
    · rw [afterHead]
      nofun
    · rw [afterHead]
      rintro _ ⟨⟩
      exact wellFormed.owner stored head
    · rw [afterHead, appendedChunks, length]
      rintro _ ⟨⟩
      exact ⟨by rw [messageTotal_append, messageCount], by rw [chunkCount]⟩

end OwnerTranscript

/-! The reads of a transcript: page by page from a seek record on, with chunks cut at
both ends of the window. -/

structure Span where
  start : Nat
  stop : Nat

/-- The part of a chunk that lies in a window, none if they do not meet. -/
def Span.part (span : Span) (chunk : TranscriptChunk) : Option (Window TranscriptChunk) :=
  if chunk.firstMessageIndex < span.stop ∧ span.start < chunk.messageEnd then
    some ⟨chunk, span.start - chunk.firstMessageIndex,
      min (span.stop - chunk.firstMessageIndex) chunk.messageCount⟩
  else none

def decodeRange (window : Window TranscriptChunk) : List ModelMessage :=
  (window.item.content.take window.stop).drop window.start

namespace OwnerTranscript

variable (transcript : OwnerTranscript)

def page (afterSequence : Option Nat) : List (StoredFact TranscriptChunk) :=
  listFacts transcript.facts afterSequence transcriptPageSize

/-- How many facts a read after a sequence number still has before it. -/
def remaining (afterSequence : Option Nat) : Nat :=
  transcript.facts.countP fun fact => afterSequence.all (· < fact.sequence)

variable {afterSequence attemptedSeek : Option Nat} {sequence stopAt : Nat}

theorem remaining_lt
    (reaches : ((transcript.page afterSequence).getLast nonempty).sequence ≤ sequence) :
    transcript.remaining (some sequence) < transcript.remaining afterSequence := by
  obtain ⟨member, after⟩ := mem_filter.mp (mem_of_mem_take (getLast_mem nonempty))
  refine countP_lt_of_mem member ?_ after ?_
  · intro fact _ later
    cases afterSequence with
    | none => rfl
    | some earlier =>
      simp only [Option.all_some, decide_eq_true_eq] at after later ⊢
      omega
  · simp only [Option.all_some, decide_eq_false_iff_not, not_lt]
    exact reaches

def seekFactSequence (messageIndex : Nat) : Option Nat :=
  if messageIndex = 0 then none
  else
    let block := messageIndex / transcriptSeekBlock * transcriptSeekBlock
    match transcript.seekAt block with
    | none => none
    | some seek =>
      if messageIndex < seek.chunkFirstMessageIndex then none
      else if 0 < seek.factSequence then some (seek.factSequence - 1)
      else none

def validateObservedHead (ownerId : String) (head : Option TranscriptHeadRecord) :
    Except Raised TranscriptHeadRecord := do
  let head ← orRaise head .integrity
  refuse (head.ownerId ≠ ownerId) .integrity
  return head

def resolveObservedHead (ownerId : String) (observedHead : Option TranscriptHeadRecord) :
    Except Raised TranscriptHeadRecord :=
  validateObservedHead ownerId (observedHead.or (transcript.head.map StoredHead.head))

def readRangeStart (ownerId : String) (span : Span)
    (observedHead : Option TranscriptHeadRecord) : Except Raised (Option Nat) := do
  let head ← transcript.resolveObservedHead ownerId observedHead
  refuse (head.messageCount < span.stop) .integrity
  return transcript.seekFactSequence span.start

/-- The messages of a page, and whether the page has gone past the window. -/
def iterChunks (span : Span) : List TranscriptChunk → List ModelMessage × Bool
  | [] => ([], false)
  | chunk :: rest =>
    if span.stop ≤ chunk.firstMessageIndex then ([], true)
    else
      let (messages, passed) := iterChunks span rest
      ((span.part chunk).toList.flatMap decodeRange ++ messages, passed)

def requireEmitted (span : Span) (emitted : List ModelMessage) :
    Except Raised (List ModelMessage) := do
  refuse (emitted.length ≠ span.stop - span.start) .integrity
  return emitted

def iterPages (span : Span) (afterSequence : Option Nat) (emitted : List ModelMessage) :
    Except Raised (List ModelMessage) :=
  if nonempty : transcript.page afterSequence ≠ [] then
    let (messages, passed) :=
      iterChunks span ((transcript.page afterSequence).map StoredFact.data)
    if passed ∨ (transcript.page afterSequence).length < transcriptPageSize then
      requireEmitted span (emitted ++ messages)
    else
      iterPages span (some ((transcript.page afterSequence).getLast nonempty).sequence)
        (emitted ++ messages)
  else requireEmitted span emitted
termination_by transcript.remaining afterSequence
decreasing_by exact transcript.remaining_lt (le_refl _)

def iterRange (ownerId : String) (span : Span) (observedHead : Option TranscriptHeadRecord) :
    Except Raised (List ModelMessage) :=
  if span.stop ≤ span.start then .ok []
  else do
    let afterSequence ← transcript.readRangeStart ownerId span observedHead
    transcript.iterPages span afterSequence []

def requireSpan (start stop : Int) : Except Raised Span := do
  refuse (start < 0 ∨ stop < start) .conflict
  return ⟨start.toNat, stop.toNat⟩

def iterMessageRange (ownerId : String) (start stop : Int) : Except Raised (List ModelMessage) := do
  let span ← requireSpan start stop
  let head ← transcript.resolveObservedHead ownerId none
  refuse (head.messageCount < span.stop) .integrity
  transcript.iterRange ownerId span none

def loadPages (afterSequence : Option Nat) (messages : List ModelMessage) : List ModelMessage :=
  if nonempty : transcript.page afterSequence ≠ [] then
    loadPages (some ((transcript.page afterSequence).getLast nonempty).sequence)
      (messages ++ ((transcript.page afterSequence).map StoredFact.data).flatMap
        TranscriptChunk.content)
  else messages
termination_by transcript.remaining afterSequence
decreasing_by exact transcript.remaining_lt (le_refl _)

def loadMessages : List ModelMessage := transcript.loadPages none []

def Nonempty (span : Span) : Prop := span.start < span.stop

instance : DecidablePred Nonempty := fun span => by
  unfold Nonempty
  infer_instance

def extendSpans (spans : List Span) (chunks : List TranscriptChunk)
    (values : List (List ModelMessage)) : List (List ModelMessage) :=
  zipWith (· ++ ·) values <| spans.map fun span =>
    if Nonempty span then (chunks.filterMap span.part).flatMap decodeRange else []

def nextStart (spans : List Span) (chunkEnd : Nat) : Option Nat :=
  ((spans.filter fun span => Nonempty span ∧ chunkEnd < span.stop).map Span.start).min?

/-- Where the read after a page goes on, and the seek that it has tried. -/
def nextSequence (spans : List Span) (chunkEnd lastSequence : Nat) (attemptedSeek : Option Nat) :
    Except Raised (Nat × Option Nat) := do
  let start ← orRaise (nextStart spans chunkEnd) (.valueError "min() arg is an empty sequence")
  if transcriptSeekBlock ≤ start - chunkEnd ∧ attemptedSeek ≠ some start then
    return (max lastSequence ((transcript.seekFactSequence start).getD 0), some start)
  else return (lastSequence, attemptedSeek)

variable {spans : List Span}

theorem nextSequence_le {next : Nat × Option Nat}
    (done : transcript.nextSequence spans chunkEnd lastSequence attemptedSeek = .ok next) :
    lastSequence ≤ next.1 := by
  simp only [nextSequence, bind_eq_ok] at done
  obtain ⟨start, _, done⟩ := done
  split at done
  · cases done
    exact le_max_left _ _
  · cases done
    exact le_refl _

def spanPages (spans : List Span) (stopAt : Nat) (afterSequence attemptedSeek : Option Nat)
    (values : List (List ModelMessage)) : Except Raised (List (List ModelMessage)) :=
  if nonempty : transcript.page afterSequence ≠ [] then
    let last := (transcript.page afterSequence).getLast nonempty
    let extended :=
      extendSpans spans ((transcript.page afterSequence).map StoredFact.data) values
    if stopAt ≤ last.data.messageEnd ∨
        (transcript.page afterSequence).length < transcriptPageSize then .ok extended
    else
      match _advances : transcript.nextSequence spans last.data.messageEnd last.sequence
        attemptedSeek with
      | .error raised => .error raised
      | .ok (sequence, attempted) =>
        spanPages spans stopAt (some sequence) attempted extended
  else .ok values
termination_by transcript.remaining afterSequence
decreasing_by exact transcript.remaining_lt (transcript.nextSequence_le _advances)

variable {values : List (List ModelMessage)}

theorem spanPages_of_finished (nonempty : transcript.page afterSequence ≠ [])
    (finished : stopAt ≤ ((transcript.page afterSequence).getLast nonempty).data.messageEnd ∨
      (transcript.page afterSequence).length < transcriptPageSize) :
    transcript.spanPages spans stopAt afterSequence attemptedSeek values =
      .ok (extendSpans spans ((transcript.page afterSequence).map StoredFact.data) values) := by
  rw [spanPages, dif_pos nonempty]
  exact if_pos finished

theorem spanPages_of_more (nonempty : transcript.page afterSequence ≠ [])
    (more : ¬(stopAt ≤ ((transcript.page afterSequence).getLast nonempty).data.messageEnd ∨
      (transcript.page afterSequence).length < transcriptPageSize))
    (advances : transcript.nextSequence spans
      ((transcript.page afterSequence).getLast nonempty).data.messageEnd
      ((transcript.page afterSequence).getLast nonempty).sequence attemptedSeek =
        .ok (sequence, attempted)) :
    transcript.spanPages spans stopAt afterSequence attemptedSeek values =
      transcript.spanPages spans stopAt (some sequence) attempted
        (extendSpans spans ((transcript.page afterSequence).map StoredFact.data) values) := by
  rw [spanPages, dif_pos nonempty]
  refine (if_neg more).trans ?_
  split
  case h_1 raised refused => cases refused.symm.trans advances
  case h_2 next attempt done =>
    cases done.symm.trans advances
    rfl

def validateSpans (spans : List Span) (values : List (List ModelMessage)) :
    Except Raised (List (List ModelMessage)) := do
  refuse ((spans.zip values).any fun (span, value) => value.length ≠ span.stop - span.start)
    .integrity
  return values

/-- The spans of a request whose windows are all empty are checked against the head
only. -/
def loadSpans (ownerId : String) (spans : List Span)
    (observedHead : Option TranscriptHeadRecord) : Except Raised (List (List ModelMessage)) :=
  let filled := spans.filter Nonempty
  let stopAt := (spans.map Span.stop).foldr max 0
  match filled with
  | [] => do
    let head ← transcript.resolveObservedHead ownerId observedHead
    refuse (head.messageCount < stopAt) .integrity
    return spans.map fun _ => []
  | first :: rest => do
    let readFrom := (rest.map Span.start).foldl min first.start
    let afterSequence ← transcript.readRangeStart ownerId ⟨readFrom, stopAt⟩ observedHead
    let values ← transcript.spanPages spans ((filled.map Span.stop).foldr max 0)
      afterSequence none (spans.map fun _ => [])
    validateSpans spans values

def loadMessageSpans (ownerId : String) (windows : List (Int × Int))
    (observedHead : Option TranscriptHeadRecord) : Except Raised (List (List ModelMessage)) :=
  if windows = [] then .ok []
  else do
    let spans ← windows.mapM fun (start, stop) => requireSpan start stop
    transcript.loadSpans ownerId spans observedHead

end OwnerTranscript

end Linktools.Transcript
