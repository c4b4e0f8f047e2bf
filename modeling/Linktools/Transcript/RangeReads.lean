import Linktools.Library.Paging
import Linktools.Transcript.Reads
import Mathlib.Data.List.MinMax
import Mathlib.Order.Nat

namespace Linktools.Transcript

open Library List

variable {ownerId : String} {first : Nat} {chunks left right : List TranscriptChunk} {span : Span}
  {transcript : OwnerTranscript}

def sliceOf (span : Span) (messages : List ModelMessage) : List ModelMessage :=
  (messages.take span.stop).drop span.start

theorem length_sliceOf (within : span.stop ≤ messages.length) :
    (sliceOf span messages).length = span.stop - span.start := by
  rw [sliceOf, length_drop, length_take, min_eq_left within]

def sliceFrom (span : Span) (first : Nat) (chunks : List TranscriptChunk) : List ModelMessage :=
  (windows TranscriptChunk.messageCount chunks (span.start - first) (span.stop - first)).flatMap
    decodeRange

theorem sliceFrom_zero :
    sliceFrom span 0 chunks = sliceOf span (chunks.flatMap TranscriptChunk.content) :=
  windows_cut fun _ _ => rfl

@[simp] theorem sliceFrom_nil : sliceFrom span first [] = [] := rfl

theorem sliceFrom_append : sliceFrom span first (left ++ right) =
      sliceFrom span first left ++ sliceFrom span (first + messageTotal left) right := by
  rw [sliceFrom, windows_append, flatMap_append, Nat.sub_sub, Nat.sub_sub]
  rfl

theorem sliceFrom_of_stop_le (passed : span.stop ≤ first) : sliceFrom span first chunks = [] := by
  rw [sliceFrom, windows_of_le (by omega), flatMap_nil]

theorem sliceFrom_of_total_le (ahead : first + messageTotal chunks ≤ span.start) :
    sliceFrom span first chunks = [] := by
  have outside : messageTotal chunks ≤ span.start - first := by omega
  rw [sliceFrom, windows_of_total_le outside, flatMap_nil]

section

variable (filled : span.start < span.stop)
include filled

theorem part_eq (start : chunk.firstMessageIndex = first)
    (nonempty : 0 < chunk.messageCount) : (span.part chunk).toList =
      windows TranscriptChunk.messageCount [chunk] (span.start - first) (span.stop - first) := by
  subst start
  rw [windows_cons, windows_nil, append_nil]
  unfold Span.part
  by_cases meets : chunk.firstMessageIndex < span.stop ∧ span.start < chunk.messageEnd
  · have inside : span.start - chunk.firstMessageIndex <
        min (span.stop - chunk.firstMessageIndex) chunk.messageCount := by
      rw [TranscriptChunk.messageEnd] at meets
      omega
    rw [if_pos meets, if_pos inside, Option.toList_some]
  · have outside : ¬span.start - chunk.firstMessageIndex <
        min (span.stop - chunk.firstMessageIndex) chunk.messageCount := by
      rw [TranscriptChunk.messageEnd] at meets
      omega
    rw [if_neg meets, if_neg outside, Option.toList_none]

theorem sliceFrom_cons
    (start : chunk.firstMessageIndex = first) (nonempty : 0 < chunk.messageCount) :
    sliceFrom span first (chunk :: chunks) = (span.part chunk).toList.flatMap decodeRange ++
        sliceFrom span (first + chunk.messageCount) chunks := by
  rw [part_eq filled start nonempty]
  have split : sliceFrom span first ([chunk] ++ chunks) =
      sliceFrom span first [chunk] ++ sliceFrom span (first + messageTotal [chunk]) chunks :=
    sliceFrom_append
  exact split

theorem filterMap_part (contiguous : Contiguous ownerId first chunks) :
    (chunks.filterMap span.part).flatMap decodeRange = sliceFrom span first chunks := by
  induction chunks generalizing first with
  | nil => rfl
  | cons chunk rest ih =>
    obtain ⟨⟨_, nonempty, start⟩, later⟩ := contiguous
    rw [sliceFrom_cons filled start nonempty, ← ih later, filterMap_cons]
    cases span.part chunk with
    | none => rfl
    | some window =>
      rw [Option.toList_some, flatMap_singleton]
      exact flatMap_cons

end

namespace OwnerTranscript

theorem iterChunks_spec (filled : span.start < span.stop)
    (contiguous : Contiguous ownerId first chunks) :
    (iterChunks span chunks).1 = sliceFrom span first chunks ∧
      ((iterChunks span chunks).2 = true → span.stop ≤ first + messageTotal chunks) := by
  induction chunks generalizing first with
  | nil => exact ⟨rfl, nofun⟩
  | cons chunk rest ih =>
    obtain ⟨⟨_, nonempty, start⟩, later⟩ := contiguous
    obtain ⟨messages, passes⟩ := ih later
    rw [iterChunks, messageTotal_cons]
    split
    case isTrue passed =>
      rw [sliceFrom_of_stop_le (by omega)]
      exact ⟨rfl, fun _ => by omega⟩
    case isFalse =>
      rw [sliceFrom_cons filled start nonempty, ← messages]
      exact ⟨rfl, fun passed => by have := passes passed; omega⟩

variable (wellFormed : WellFormed ownerId transcript)
include wellFormed

theorem page_eq : transcript.page afterSequence =
      (transcript.facts.drop (afterSequence.getD 0)).take transcriptPageSize := by
  cases afterSequence with
  | none => simp [page, listFacts]
  | some after =>
    exact congrArg (take transcriptPageSize) (filter_consecutive wellFormed.sequences)

theorem page_length : (transcript.page afterSequence).length =
      min transcriptPageSize (transcript.facts.length - afterSequence.getD 0) := by
  rw [page_eq wellFormed, length_take, length_drop]

theorem getLast_page_sequence (nonempty : transcript.page afterSequence ≠ []) :
    ((transcript.page afterSequence).getLast nonempty).sequence =
      afterSequence.getD 0 + (transcript.page afterSequence).length := by
  have length : (transcript.page afterSequence).length =
      min transcriptPageSize (transcript.facts.length - afterSequence.getD 0) :=
    page_length wellFormed
  have positive := length_pos_iff.mpr nonempty
  have last : (transcript.page afterSequence).getLast? =
      transcript.facts[afterSequence.getD 0 + (transcript.page afterSequence).length - 1]? := by
    rw [getLast?_eq_getElem?]
    nth_rewrite 1 [page_eq wellFormed]
    rw [getElem?_take_of_lt (by omega), getElem?_drop]
    congr 1
    omega
  have number := congrArg (fun numbers => numbers[afterSequence.getD 0 +
    (transcript.page afterSequence).length - 1]?) wellFormed.sequences
  simp only [getElem?_map, ← last, getLast?_eq_some_getLast nonempty,
    Option.map_some] at number
  rw [getElem?_range' (by omega), Option.some.injEq] at number
  omega

theorem page_data : (transcript.page afterSequence).map StoredFact.data =
      (transcript.chunks.drop (afterSequence.getD 0)).take
        (transcript.page afterSequence).length := by
  have count : (transcript.page afterSequence).length =
      min transcriptPageSize (transcript.facts.length - afterSequence.getD 0) :=
    page_length wellFormed
  have length : (transcript.chunks.drop (afterSequence.getD 0)).length =
      transcript.facts.length - afterSequence.getD 0 := by
    rw [length_drop, chunks, length_map]
  rw [count, ← length, ← take_eq_take_min]
  nth_rewrite 1 [page_eq wellFormed]
  rw [map_take, map_drop]
  rfl

omit wellFormed in
def messagesBefore (transcript : OwnerTranscript) (position : Nat) : Nat :=
  messageTotal (transcript.chunks.take position)

omit wellFormed in
def sliceAfter (transcript : OwnerTranscript) (span : Span) (position : Nat) : List ModelMessage :=
  sliceFrom span (transcript.messagesBefore position) (transcript.chunks.drop position)

theorem contiguous_drop (position : Nat) :
    Contiguous ownerId (transcript.messagesBefore position) (transcript.chunks.drop position) := by
  have contiguous := wellFormed.contiguous
  rw [← take_append_drop position transcript.chunks, contiguous_append] at contiguous
  rw [messagesBefore, ← zero_add (messageTotal _)]
  exact contiguous.2

omit wellFormed in
theorem messagesBefore_add (position count : Nat) : transcript.messagesBefore (position + count) =
      transcript.messagesBefore position +
        messageTotal ((transcript.chunks.drop position).take count) := by
  rw [messagesBefore, messagesBefore, take_add, messageTotal_append]

omit wellFormed in
theorem sliceAfter_add (position count : Nat) : transcript.sliceAfter span position =
      sliceFrom span (transcript.messagesBefore position)
          ((transcript.chunks.drop position).take count) ++
        transcript.sliceAfter span (position + count) := by
  rw [sliceAfter, sliceAfter, messagesBefore_add, ← drop_drop, ← sliceFrom_append,
    take_append_drop]

variable {later position : Nat}

omit wellFormed in
theorem sliceAfter_skip (forward : position ≤ later)
    (nothing : transcript.messagesBefore later ≤ span.start ∨
      span.stop ≤ transcript.messagesBefore position) :
    transcript.sliceAfter span position = transcript.sliceAfter span later := by
  obtain ⟨count, rfl⟩ := Nat.exists_eq_add_of_le forward
  rw [sliceAfter_add position count]
  rcases nothing with ahead | passed
  · rw [messagesBefore_add] at ahead
    rw [sliceFrom_of_total_le ahead, nil_append]
  · rw [sliceFrom_of_stop_le passed, nil_append]

omit wellFormed in
theorem sliceAfter_of_end (ended : transcript.facts.length ≤ position) :
    transcript.sliceAfter span position = [] := by
  rw [sliceAfter, drop_eq_nil_of_le (by rwa [chunks, length_map]), sliceFrom_nil]

omit wellFormed in
theorem sliceAfter_zero : transcript.sliceAfter span 0 = sliceOf span transcript.messages :=
  sliceFrom_zero

theorem sliceAfter_page : transcript.sliceAfter span (afterSequence.getD 0) =
      sliceFrom span (transcript.messagesBefore (afterSequence.getD 0))
          ((transcript.page afterSequence).map StoredFact.data) ++ transcript.sliceAfter span
          (afterSequence.getD 0 + (transcript.page afterSequence).length) := by
  rw [page_data wellFormed]
  exact sliceAfter_add _ _

theorem contiguous_page (afterSequence : Option Nat) :
    Contiguous ownerId (transcript.messagesBefore (afterSequence.getD 0))
      ((transcript.page afterSequence).map StoredFact.data) := by
  rw [page_data wellFormed]
  have contiguous := contiguous_drop wellFormed (afterSequence.getD 0)
  rw [← take_append_drop (transcript.page afterSequence).length
    (transcript.chunks.drop (afterSequence.getD 0)), contiguous_append] at contiguous
  exact contiguous.1

theorem messagesBefore_page : transcript.messagesBefore
        (afterSequence.getD 0 + (transcript.page afterSequence).length) =
      transcript.messagesBefore (afterSequence.getD 0) +
        messageTotal ((transcript.page afterSequence).map StoredFact.data) := by
  rw [messagesBefore_add, page_data wellFormed]

theorem end_of_short_page (short : (transcript.page afterSequence).length < transcriptPageSize) :
    transcript.facts.length ≤ afterSequence.getD 0 + (transcript.page afterSequence).length := by
  have count : (transcript.page afterSequence).length =
      min transcriptPageSize (transcript.facts.length - afterSequence.getD 0) :=
    page_length wellFormed
  omega

theorem end_of_no_page (empty : transcript.page afterSequence = []) :
    transcript.facts.length ≤ afterSequence.getD 0 := by
  have short := end_of_short_page wellFormed
    (show (transcript.page afterSequence).length < transcriptPageSize by
      rw [empty]; exact Nat.zero_lt_succ _)
  rwa [empty] at short

omit wellFormed in
theorem requireEmitted_eq (complete : emitted.length = span.stop - span.start) :
    requireEmitted span emitted = .ok emitted := by
  unfold requireEmitted
  rw [refuse_of_not (not_not.mpr complete)]
  rfl

/-- The loop of `_iter_range` adds what the window still holds. -/
theorem iterPages_eq (filled : span.start < span.stop)
    (complete : (emitted ++ transcript.sliceAfter span (afterSequence.getD 0)).length =
      span.stop - span.start) : transcript.iterPages span afterSequence emitted =
      .ok (emitted ++ transcript.sliceAfter span (afterSequence.getD 0)) := by
  induction afterSequence, emitted using iterPages.induct transcript span with
  | case1 afterSequence emitted nonempty messages passed scanned finished =>
    have scan := iterChunks_spec filled (contiguous_page wellFormed afterSequence)
    rw [scanned] at scan
    have rest : transcript.sliceAfter span
        (afterSequence.getD 0 + (transcript.page afterSequence).length) = [] := by
      rcases finished with gone | short
      · rw [sliceAfter, sliceFrom_of_stop_le]
        rw [messagesBefore_page wellFormed]
        exact scan.2 gone
      · exact sliceAfter_of_end (end_of_short_page wellFormed short)
    rw [sliceAfter_page wellFormed, rest, append_nil, ← scan.1] at complete ⊢
    rw [iterPages, dif_pos nonempty, scanned]
    simp only [if_pos finished]
    exact requireEmitted_eq complete
  | case2 afterSequence emitted nonempty messages passed scanned more ih =>
    have scan := iterChunks_spec filled (contiguous_page wellFormed afterSequence)
    rw [scanned] at scan
    rw [getLast_page_sequence wellFormed] at ih
    rw [sliceAfter_page wellFormed, ← scan.1, ← append_assoc] at complete ⊢
    rw [iterPages, dif_pos nonempty, scanned]
    simp only [if_neg more]
    rw [getLast_page_sequence wellFormed]
    exact ih complete
  | case3 afterSequence emitted empty =>
    rw [not_not] at empty
    rw [sliceAfter_of_end (end_of_no_page wellFormed empty), append_nil] at complete ⊢
    rw [iterPages, dif_neg (not_not.mpr empty)]
    exact requireEmitted_eq complete

theorem chunk_start {before later : List TranscriptChunk}
    (split : transcript.chunks = before ++ chunk :: later) :
    chunk.firstMessageIndex = messageTotal before := by
  have contiguous := wellFormed.contiguous
  rw [split, contiguous_append, Contiguous] at contiguous
  rw [contiguous.2.1.2.2, zero_add]

theorem messagesBefore_seek (messageIndex : Nat) :
    transcript.messagesBefore ((transcript.seekFactSequence messageIndex).getD 0) ≤
      messageIndex := by
  unfold seekFactSequence
  split
  case isTrue => exact Nat.zero_le _
  case isFalse =>
    dsimp only
    split
    case h_1 => exact Nat.zero_le _
    case h_2 seek found =>
      obtain ⟨before, chunk, later, chunks, sequence, first, _⟩ :=
        wellFormed.seeks seek (rowAt_mem found)
      split
      case isTrue => exact Nat.zero_le _
      case isFalse reaches =>
        rw [sequence, if_pos (Nat.succ_pos _), Option.getD_some, Nat.add_sub_cancel,
          messagesBefore, chunks, take_left, ← chunk_start wellFormed chunks, ← first]
        exact Nat.le_of_not_lt reaches

theorem sliceAfter_seek (starts : messageIndex ≤ span.start) :
    transcript.sliceAfter span ((transcript.seekFactSequence messageIndex).getD 0) =
      sliceOf span transcript.messages := by
  rw [← sliceAfter_zero, eq_comm]
  exact sliceAfter_skip (Nat.zero_le _)
    (.inl ((messagesBefore_seek wellFormed messageIndex).trans starts))

variable {observedHead : Option TranscriptHeadRecord}

omit wellFormed in
def Observable (ownerId : String) (count : Nat) (transcript : OwnerTranscript)
    (observedHead : Option TranscriptHeadRecord) : Prop :=
  ∃ head ∈ observedHead.or (transcript.head.map StoredHead.head),
    head.ownerId = ownerId ∧ head.messageCount = count

variable {count : Nat}

omit wellFormed in
theorem resolveObservedHead_ok (observed : Observable ownerId count transcript observedHead) :
    ∃ head, transcript.resolveObservedHead ownerId observedHead = .ok head ∧
      head.messageCount = count := by
  obtain ⟨head, found, owner, counted⟩ := observed
  refine ⟨head, ?_, counted⟩
  rw [resolveObservedHead, Option.mem_def.mp found, validateObservedHead, orRaise, ok_bind,
    refuse_of_not (not_not.mpr owner)]
  rfl

omit wellFormed in
theorem readRangeStart_eq
    (observed : Observable ownerId count transcript observedHead) (within : span.stop ≤ count) :
    transcript.readRangeStart ownerId span observedHead =
      .ok (transcript.seekFactSequence span.start) := by
  obtain ⟨head, resolved, counted⟩ := resolveObservedHead_ok observed
  rw [readRangeStart, resolved, ok_bind, refuse_of_not (by omega)]
  rfl

theorem iterRange_eq (observed : Observable ownerId count transcript observedHead)
    (within : span.stop ≤ count) (durable : count ≤ transcript.messages.length) :
    transcript.iterRange ownerId span observedHead = .ok (sliceOf span transcript.messages) := by
  unfold iterRange
  split
  case isTrue empty =>
    rw [sliceOf, drop_eq_nil_of_le]
    rw [length_take]
    omega
  case isFalse filled =>
    have slice : transcript.sliceAfter span ((transcript.seekFactSequence span.start).getD 0) =
        sliceOf span transcript.messages := sliceAfter_seek wellFormed (Nat.le_refl span.start)
    have complete : ([] ++ transcript.sliceAfter span
        ((transcript.seekFactSequence span.start).getD 0)).length = span.stop - span.start := by
      rw [nil_append, slice, length_sliceOf (by omega)]
    rw [readRangeStart_eq observed within, ok_bind,
      iterPages_eq wellFormed (Nat.lt_of_not_le filled) complete, slice, nil_append]

theorem iterMessageRange_eq (head : transcript.head = some stored) (ordered : start ≤ stop)
    (within : stop ≤ transcript.messages.length) :
    transcript.iterMessageRange ownerId start stop =
      .ok (sliceOf ⟨start, stop⟩ transcript.messages) := by
  have owner := wellFormed.owner stored head
  have count := wellFormed.length_messages head
  have observed : Observable ownerId transcript.messages.length transcript none :=
    ⟨stored.head, by simp [head], owner, count.symm⟩
  obtain ⟨resolvedHead, resolved, counted⟩ := resolveObservedHead_ok observed
  rw [iterMessageRange, requireSpan, refuse_of_not (by omega)]
  change (transcript.resolveObservedHead ownerId none >>= _) = _
  rw [resolved, ok_bind, refuse_of_not (by simp; omega)]
  change transcript.iterRange ownerId ⟨(start : Int).toNat, (stop : Int).toNat⟩ none = _
  rw [Int.toNat_natCast, Int.toNat_natCast]
  exact iterRange_eq wellFormed observed within (Nat.le_refl _)

omit wellFormed in
def messagesAfter (transcript : OwnerTranscript) (position : Nat) : List ModelMessage :=
  (transcript.chunks.drop position).flatMap TranscriptChunk.content

theorem messagesAfter_page (afterSequence : Option Nat) :
    transcript.messagesAfter (afterSequence.getD 0) =
      ((transcript.page afterSequence).map StoredFact.data).flatMap TranscriptChunk.content ++
        transcript.messagesAfter
          (afterSequence.getD 0 + (transcript.page afterSequence).length) := by
  rw [page_data wellFormed, messagesAfter, messagesAfter, ← drop_drop,
    ← flatMap_append, take_append_drop]

variable {messages : List ModelMessage}

theorem loadPages_eq : transcript.loadPages afterSequence messages =
      messages ++ transcript.messagesAfter (afterSequence.getD 0) := by
  induction afterSequence, messages using loadPages.induct transcript with
  | case1 afterSequence messages nonempty ih =>
    rw [getLast_page_sequence wellFormed] at ih
    rw [loadPages, dif_pos nonempty, getLast_page_sequence wellFormed, ih,
      messagesAfter_page wellFormed afterSequence, append_assoc]
    rfl
  | case2 afterSequence messages empty =>
    have ended := end_of_no_page wellFormed (not_not.mp empty)
    rw [loadPages, dif_neg empty, messagesAfter, drop_eq_nil_of_le, flatMap_nil,
      append_nil]
    rwa [chunks, length_map]

theorem loadMessages_eq : transcript.loadMessages = transcript.messages := by
  rw [loadMessages, loadPages_eq wellFormed]
  rfl

omit wellFormed in
theorem sliceAfter_of_empty (empty : ¬Nonempty span) (position : Nat) :
    transcript.sliceAfter span position = [] := by
  rw [Nonempty] at empty
  rw [sliceAfter, sliceFrom, windows_of_le (by omega), flatMap_nil]

omit wellFormed in
theorem getLast_messageEnd (contiguous : Contiguous ownerId first chunks) (nonempty : chunks ≠ []) :
    (chunks.getLast nonempty).messageEnd = first + messageTotal chunks := by
  rw [← dropLast_append_getLast nonempty, contiguous_append] at contiguous
  obtain ⟨_, ⟨⟨_, _, start⟩, _⟩⟩ := contiguous
  nth_rewrite 2 [← dropLast_append_getLast nonempty]
  rw [messageTotal_append, messageTotal_cons, messageTotal_nil, TranscriptChunk.messageEnd, start,
    add_zero, add_assoc]

theorem last_messageEnd (nonempty : transcript.page afterSequence ≠ []) :
    ((transcript.page afterSequence).getLast nonempty).data.messageEnd = transcript.messagesBefore
        (afterSequence.getD 0 + (transcript.page afterSequence).length) := by
  have mapped : (transcript.page afterSequence).map StoredFact.data ≠ [] := by
    rwa [Ne, map_eq_nil_iff]
  rw [messagesBefore_page wellFormed,
    ← getLast_messageEnd (contiguous_page wellFormed afterSequence) mapped, getLast_map]

omit wellFormed in
def Loaded (transcript : OwnerTranscript) (position : Nat) (spans : List Span)
    (values : List (List ModelMessage)) : Prop :=
  List.Forall₂ (fun span value =>
    value ++ transcript.sliceAfter span position = sliceOf span transcript.messages) spans values

variable {spans : List Span} {values : List (List ModelMessage)}

theorem Loaded.extend (loaded : Loaded transcript (afterSequence.getD 0) spans values) :
    Loaded transcript (afterSequence.getD 0 + (transcript.page afterSequence).length) spans
      (extendSpans spans ((transcript.page afterSequence).map StoredFact.data) values) := by
  unfold extendSpans
  induction loaded with
  | nil => exact .nil
  | @cons span value spans values head _ ih =>
    refine .cons ?_ ih
    rw [← head, append_assoc]
    dsimp only
    split
    case isTrue filled =>
      rw [filterMap_part filled (contiguous_page wellFormed afterSequence),
        ← sliceAfter_page wellFormed]
    case isFalse empty => rw [sliceAfter_of_empty empty, sliceAfter_of_empty empty]; rfl

omit wellFormed in
theorem Loaded.skip (loaded : Loaded transcript position spans values) (forward : position ≤ later)
    (nothing : ∀ span ∈ spans, Nonempty span → transcript.messagesBefore later ≤ span.start ∨
      span.stop ≤ transcript.messagesBefore position) : Loaded transcript later spans values := by
  induction loaded with
  | nil => exact .nil
  | @cons span value spans values head _ ih =>
    refine .cons ?_ (ih fun other member => nothing other (mem_cons_of_mem _ member))
    rw [← head]
    congr 1
    by_cases filled : Nonempty span
    · exact (sliceAfter_skip forward (nothing span mem_cons_self filled)).symm
    · rw [sliceAfter_of_empty filled, sliceAfter_of_empty filled]

omit wellFormed in
theorem Loaded.complete (loaded : Loaded transcript position spans values)
    (nothing : ∀ span ∈ spans, Nonempty span →
      transcript.facts.length ≤ position ∨ span.stop ≤ transcript.messagesBefore position) :
    values = spans.map fun span => sliceOf span transcript.messages := by
  induction loaded with
  | nil => rfl
  | @cons span value spans values head _ ih =>
    have none : transcript.sliceAfter span position = [] := by
      by_cases filled : Nonempty span
      · rcases nothing span mem_cons_self filled with ended | passed
        · exact sliceAfter_of_end ended
        · exact sliceFrom_of_stop_le passed
      · exact sliceAfter_of_empty filled position
    rw [none, append_nil] at head
    rw [map_cons, ← head, ih fun other member => nothing other (mem_cons_of_mem _ member)]

omit wellFormed in
theorem nextStart_ok (wanted : ∃ span ∈ spans, Nonempty span ∧ chunkEnd < span.stop) :
    ∃ start, nextStart spans chunkEnd = some start ∧
      ∀ span ∈ spans, Nonempty span → chunkEnd < span.stop → start ≤ span.start := by
  obtain ⟨span, member, filled, reaches⟩ := wanted
  have inside : span.start ∈ (spans.filter fun span => Nonempty span ∧ chunkEnd < span.stop).map
      Span.start :=
    mem_map_of_mem (mem_filter.mpr ⟨member, by simp [filled, reaches]⟩)
  obtain ⟨start, least⟩ : ∃ start, nextStart spans chunkEnd = some start := by
    cases minimum : nextStart spans chunkEnd with
    | some start => exact ⟨start, rfl⟩
    | none =>
      rw [nextStart, min?_eq_none_iff] at minimum
      rw [minimum] at inside
      cases inside
  refine ⟨start, least, ?_⟩
  intro other otherMember otherFilled otherReaches
  exact (min?_eq_some_iff.mp least).2 other.start
    (mem_map_of_mem (mem_filter.mpr ⟨otherMember, by simp [otherFilled, otherReaches]⟩))

theorem nextSequence_ok
    (wanted : ∃ span ∈ spans, Nonempty span ∧ transcript.messagesBefore position < span.stop) :
    ∃ sequence attempted,
      transcript.nextSequence spans (transcript.messagesBefore position) position
        attemptedSeek = .ok (sequence, attempted) ∧ position ≤ sequence ∧
      (sequence = position ∨ ∀ span ∈ spans, Nonempty span →
        transcript.messagesBefore sequence ≤ span.start ∨
          span.stop ≤ transcript.messagesBefore position) := by
  obtain ⟨start, next, least⟩ := nextStart_ok wanted
  rw [nextSequence, next, orRaise, ok_bind]
  split
  case isTrue =>
    refine ⟨_, _, rfl, le_max_left _ _, ?_⟩
    rcases le_total ((transcript.seekFactSequence start).getD 0) position with
      behind | ahead
    · exact .inl (max_eq_left behind)
    · right
      intro span member filled
      rw [max_eq_right ahead]
      by_cases passed : span.stop ≤ transcript.messagesBefore position
      · exact .inr passed
      · exact .inl ((messagesBefore_seek wellFormed start).trans
          (least span member filled (Nat.lt_of_not_le passed)))
  case isFalse => exact ⟨_, _, rfl, Nat.le_refl _, .inl rfl⟩

/-- The loop of `load_message_spans` fills every window. -/
theorem spanPages_eq (bounded : ∀ span ∈ spans, Nonempty span → span.stop ≤ stopAt)
    (attained : ∃ span ∈ spans, Nonempty span ∧ span.stop = stopAt)
    (loaded : Loaded transcript (afterSequence.getD 0) spans values) :
    transcript.spanPages spans stopAt afterSequence attemptedSeek values =
      .ok (spans.map fun span => sliceOf span transcript.messages) := by
  induction afterSequence, attemptedSeek, values using spanPages.induct transcript spans stopAt with
  | case1 afterSequence attemptedSeek values nonempty last finished =>
    have extended := loaded.extend wellFormed
    rw [spanPages_of_finished transcript nonempty finished, extended.complete]
    rw [last_messageEnd wellFormed] at finished
    intro span member filled
    rcases finished with passed | short
    · exact .inr ((bounded span member filled).trans passed)
    · exact .inl (end_of_short_page wellFormed short)
  | case2 afterSequence attemptedSeek values nonempty last more raised refused =>
    rw [last_messageEnd wellFormed, getLast_page_sequence wellFormed] at refused
    rw [last_messageEnd wellFormed, not_or, not_le] at more
    obtain ⟨span, member, filled, rfl⟩ := attained
    obtain ⟨_, _, done, _⟩ := nextSequence_ok wellFormed ⟨span, member, filled, more.1⟩
    cases refused.symm.trans done
  | case3 afterSequence attemptedSeek values nonempty last extended more sequence attempted
      advances ih =>
      rw [spanPages_of_more transcript nonempty more advances]
      apply ih
      rw [last_messageEnd wellFormed, getLast_page_sequence wellFormed] at advances
      rw [last_messageEnd wellFormed] at more
      have wanted : ∃ span ∈ spans, Nonempty span ∧ transcript.messagesBefore
          (afterSequence.getD 0 + (transcript.page afterSequence).length) < span.stop := by
        obtain ⟨span, member, filled, rfl⟩ := attained
        exact ⟨span, member, filled, Nat.lt_of_not_le (not_or.mp more).1⟩
      obtain ⟨_, _, done, forward, nothing⟩ := nextSequence_ok wellFormed wanted
      cases advances.symm.trans done
      rcases nothing with rfl | nothing
      · exact loaded.extend wellFormed
      · exact (loaded.extend wellFormed).skip forward nothing
  | case4 afterSequence attemptedSeek values empty =>
    rw [spanPages, dif_neg empty, loaded.complete]
    intro _ _ _
    exact .inl (end_of_no_page wellFormed (not_not.mp empty))

omit wellFormed in
theorem validateSpans_eq (within : ∀ span ∈ spans, span.stop ≤ messages.length) :
    validateSpans spans (spans.map fun span => sliceOf span messages) =
      .ok (spans.map fun span => sliceOf span messages) := by
  have zipped : spans.zip (spans.map fun span => sliceOf span messages) =
      spans.map fun span => (span, sliceOf span messages) := by
    simpa using zip_map' (f := id) (g := fun span => sliceOf span messages) (l := spans)
  rw [validateSpans, refuse_of_not]
  · rfl
  · rw [zipped, any_map, Bool.not_eq_true, any_eq_false]
    intro span member
    simp [length_sliceOf (within span member)]

variable {values : List Nat}

omit wellFormed in
theorem foldr_max_mem (nonempty : values ≠ []) : values.foldr max 0 ∈ values := by
  induction values with
  | nil => exact absurd rfl nonempty
  | cons head rest ih =>
    rw [foldr_cons]
    cases rest with
    | nil => simp
    | cons next rest =>
      rcases le_total head ((next :: rest).foldr max 0) with below | above
      · rw [max_eq_right below]
        exact mem_cons_of_mem _ (ih (cons_ne_nil _ _))
      · rw [max_eq_left above]
        exact mem_cons_self

omit wellFormed in
theorem foldl_min_le (first : Nat) (values : List Nat) :
    values.foldl min first ≤ first ∧ ∀ value ∈ values, values.foldl min first ≤ value := by
  induction values generalizing first with
  | nil => exact ⟨Nat.le_refl _, nofun⟩
  | cons head rest ih =>
    obtain ⟨atMost, below⟩ := ih (min first head)
    refine ⟨atMost.trans (Nat.min_le_left _ _), ?_⟩
    intro value member
    rcases mem_cons.mp member with rfl | inside
    · exact atMost.trans (Nat.min_le_right _ _)
    · exact below value inside

theorem loadSpans_eq (observed : Observable ownerId count transcript observedHead)
    (within : ∀ span ∈ spans, span.start ≤ span.stop ∧ span.stop ≤ count)
    (durable : count ≤ transcript.messages.length) :
    transcript.loadSpans ownerId spans observedHead =
      .ok (spans.map fun span => sliceOf span transcript.messages) := by
  have stopAt : (spans.map Span.stop).foldr max 0 ≤ count := by
    refine max_le_of_forall_le (α := Nat) _ _ ?_
    intro value member
    obtain ⟨span, inside, rfl⟩ := mem_map.mp member
    exact (within span inside).2
  unfold loadSpans
  dsimp only
  split
  case h_1 none =>
    obtain ⟨head, resolved, counted⟩ := resolveObservedHead_ok observed
    rw [resolved, ok_bind, refuse_of_not (by omega)]
    refine congrArg Except.ok (map_congr_left ?_)
    intro span member
    have empty : ¬Nonempty span := by
      have := filter_eq_nil_iff.mp none span member
      simpa using this
    rw [Nonempty] at empty
    rw [sliceOf, drop_eq_nil_of_le]
    rw [length_take]
    omega
  case h_2 first rest filled =>
    rw [readRangeStart_eq observed stopAt, ok_bind]
    obtain ⟨leastFirst, leastRest⟩ := foldl_min_le first.start (rest.map Span.start)
    have start : Loaded transcript ((transcript.seekFactSequence
        ((rest.map Span.start).foldl min first.start)).getD 0) spans (spans.map fun _ => []) := by
      have skipped : ∀ span ∈ spans, transcript.sliceAfter span ((transcript.seekFactSequence
          ((rest.map Span.start).foldl min first.start)).getD 0) =
            sliceOf span transcript.messages := by
        intro span member
        by_cases full : Nonempty span
        · apply sliceAfter_seek wellFormed
          have inside : span ∈ first :: rest := filled ▸ mem_filter.mpr ⟨member, by simpa⟩
          rcases mem_cons.mp inside with rfl | later
          · exact leastFirst
          · exact leastRest _ (mem_map_of_mem later)
        · rw [← sliceAfter_zero, sliceAfter_of_empty full, sliceAfter_of_empty full]
      exact forall₂_map_right_iff.mpr (forall₂_same.mpr skipped)
    have bounded : ∀ span ∈ spans, Nonempty span →
        span.stop ≤ ((first :: rest).map Span.stop).foldr max 0 := by
      intro span member full
      have inside : span ∈ first :: rest := filled ▸ mem_filter.mpr ⟨member, by simpa⟩
      exact le_max_of_le' 0 (mem_map_of_mem inside) le_rfl
    have attained : ∃ span ∈ spans, Nonempty span ∧
        span.stop = ((first :: rest).map Span.stop).foldr max 0 := by
      have greatest : ((first :: rest).map Span.stop).foldr max 0 ∈
          (first :: rest).map Span.stop := foldr_max_mem (cons_ne_nil _ _)
      obtain ⟨span, inside, stop⟩ := mem_map.mp greatest
      obtain ⟨member, full⟩ := mem_filter.mp (filled ▸ inside : span ∈ spans.filter _)
      exact ⟨span, member, by simpa using full, stop⟩
    rw [filled, spanPages_eq wellFormed bounded attained start, ok_bind]
    exact validateSpans_eq fun span member => (within span member).2.trans durable

omit wellFormed in
theorem mapM_requireSpan (ordered : ∀ span ∈ spans, span.start ≤ span.stop) :
    (spans.map fun span => ((span.start : Int), (span.stop : Int))).mapM
      (fun (start, stop) => requireSpan start stop) = .ok spans := by
  rw [mapM_eq_ok, forall₂_map_left_iff, forall₂_same]
  intro span member
  have bounds := ordered span member
  change requireSpan ↑span.start ↑span.stop = .ok span
  rw [requireSpan, refuse_of_not (by omega)]
  rfl

theorem loadMessageSpans_eq (observed : Observable ownerId count transcript observedHead)
    (within : ∀ span ∈ spans, span.start ≤ span.stop ∧ span.stop ≤ count)
    (durable : count ≤ transcript.messages.length) : transcript.loadMessageSpans ownerId
        (spans.map fun span => ((span.start : Int), (span.stop : Int))) observedHead =
      .ok (spans.map fun span => sliceOf span transcript.messages) := by
  unfold loadMessageSpans
  split
  case isTrue none =>
    rw [map_eq_nil_iff] at none
    rw [none]
    rfl
  case isFalse =>
    rw [mapM_requireSpan fun span member => (within span member).1, ok_bind]
    exact loadSpans_eq wellFormed observed within durable

end OwnerTranscript

end Linktools.Transcript
