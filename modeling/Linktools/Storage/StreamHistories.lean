import Linktools.Library.Machine
import Linktools.Storage.StreamReads

namespace Linktools.Storage

open Library Function List

/-! Writers and readers of one backend, in any order.  A reader starts at the beginning and goes on
from the last record that it took. -/

inductive StreamCall
  | openStream (key producer : StreamBytes)
  | write (key : StreamBytes) (token : Nat) (sequence : Int) (payload : StreamBytes)
      (sealing : Bool)
  | startReading (key : StreamBytes)
  | look (reader : Nat) (limit : Int) (expired : Bool)

/-- A reader, with the stream that its present call has seen and all the records it has taken, each
under the token of its stream. -/
structure StreamReader where
  key : StreamBytes
  position : Nat := 0
  observed : Option Nat := none
  taken : List (Nat × Nat × StreamBytes) := []
  gapped : Bool := false
deriving DecidableEq

def StreamReader.take (reader : StreamReader) (token : Nat) (batch : StreamBatch) : StreamReader :=
  { reader with
    position := advanced reader.position batch.records
    observed := none
    taken := reader.taken ++ batch.records.map fun record => (token, record)
    gapped := reader.gapped || batch.gap }

/-- The backend, the keys for which streams were made (the token of a stream is its place), what
was written to each stream, whether it was sealed, and the readers. -/
structure StreamSystem where
  backend : StreamBackend
  opened : List StreamBytes := []
  written : Nat → List StreamBytes := fun _ => []
  sealed : Nat → Bool := fun _ => false
  readers : List StreamReader := []

namespace StreamSystem

variable (system : StreamSystem)

def openStream (key producer : StreamBytes) : StreamSystem :=
  match system.backend.openStream key producer system.opened.length with
  | .error _ => system
  | .ok (token, backend) =>
    { system with
      backend := backend
      opened := if token < system.opened.length then system.opened else system.opened ++ [key] }

def write (key : StreamBytes) (token : Nat) (sequence : Int) (payload : StreamBytes)
    (sealing : Bool) : StreamSystem :=
  match system.backend.write key token sequence payload sealing with
  | .error _ => system
  | .ok backend =>
    if sequence ≤ (system.written token).length then { system with backend := backend }
    else
      { system with
        backend := backend
        written := update system.written token (system.written token ++ [payload])
        sealed := update system.sealed token sealing }

def lookOf (reader : StreamReader) (limit : Int) (expired : Bool) : StreamReader :=
  match system.backend.look reader.key reader.observed reader.position limit expired with
  | .error _ => { reader with observed := none }
  | .ok (.wait token) => { reader with observed := some token }
  | .ok (.batch batch) =>
    reader.take (((system.backend.stream? reader.key).map MemoryStream.token).getD 0) batch

def respond : StreamCall → StreamSystem
  | .openStream key producer => system.openStream key producer
  | .write key token sequence payload sealing => system.write key token sequence payload sealing
  | .startReading key => { system with readers := system.readers ++ [{ key := key }] }
  | .look reader limit expired =>
    { system with
      readers := system.readers.modify reader fun reader => system.lookOf reader limit expired }

end StreamSystem

def streamMachine (maxBytes : Nat) : Machine StreamSystem StreamCall where
  initial system := system = { backend := { maxBytes := maxBytes } }
  step system call next := next = system.respond call

structure ReaderSound (opened : List StreamBytes) (written : Nat → List StreamBytes)
    (reader : StreamReader) : Prop where
  keyed : ∀ entry ∈ reader.taken, opened[entry.1]? = some reader.key
  content : ∀ entry ∈ reader.taken, 1 ≤ entry.2.1 ∧
    (written entry.1)[entry.2.1 - 1]? = some entry.2.2
  ordered : (reader.taken.map (·.2.1)).Pairwise (· < ·)
  behind : ∀ entry ∈ reader.taken, entry.2.1 ≤ reader.position
  whole : reader.gapped = false → reader.taken.map (·.2.1) = range' 1 reader.position

variable {opened more : List StreamBytes} {written longer : Nat → List StreamBytes}
  {reader : StreamReader} {maxBytes : Nat} {system : StreamSystem}

variable {key : StreamBytes}

theorem readerSound_start : ReaderSound opened written { key := key } where
  keyed := nofun
  content := nofun
  ordered := .nil
  behind := nofun
  whole _ := rfl

theorem getElem?_of_prefix {α : Type} {left right : List α} {index : Nat} {value : α}
    (grown : left <+: right) (found : left[index]? = some value) : right[index]? = some value := by
  obtain ⟨rest, rfl⟩ := grown
  rw [List.getElem?_append_left (List.getElem?_eq_some_iff.mp found).1, found]

theorem ReaderSound.grow (sound : ReaderSound opened written reader) (keys : opened <+: more)
    (grown : ∀ token, written token <+: longer token) : ReaderSound more longer reader := by
  refine ⟨fun entry member => ?_, fun entry member => ?_, sound.ordered, sound.behind, sound.whole⟩
  · exact getElem?_of_prefix keys (sound.keyed entry member)
  · obtain ⟨positive, content⟩ := sound.content entry member
    exact ⟨positive, getElem?_of_prefix (grown entry.1) content⟩

variable {stream : MemoryStream} {lost position limit : Nat}

theorem recordsAfter_eq (retains : Retains payloads stream lost) :
    recordsAfter stream position limit =
      numbered (max position lost + 1) ((payloads.drop (max position lost)).take limit) := by
  have start : max (position + 1) (lost + 1) = max position lost + 1 := by omega
  have index : lost + (position + 1 - (lost + 1)) = max position lost := by omega
  rw [recordsAfter, retains.records, numbered_filter, numbered_take, drop_drop, start, index]

theorem advanced_numbered :
    advanced position (numbered first payloads) =
      if payloads = [] then position else first + payloads.length - 1 := by
  rw [advanced, ← getLast?_map, numbered_fst]
  cases payloads with
  | nil => rfl
  | cons =>
    rw [if_neg (cons_ne_nil _ _), length_cons, getLast?_range']
    rfl

theorem mem_numbered :
    record ∈ numbered first payloads ↔
      ∃ index, record.1 = first + index ∧ payloads[index]? = some record.2 := by
  induction payloads generalizing first with
  | nil => simp [numbered]
  | cons payload rest ih =>
    rw [numbered, mem_cons, ih]
    constructor
    · rintro (rfl | ⟨index, number, stored⟩)
      · exact ⟨0, rfl, rfl⟩
      · exact ⟨index + 1, by omega, stored⟩
    · rintro ⟨index, number, stored⟩
      cases index with
      | zero =>
        rw [getElem?_cons_zero] at stored
        exact .inl (Prod.ext number (Option.some.inj stored).symm)
      | succ index => exact .inr ⟨index, by omega, stored⟩

variable {batch : StreamBatch}

theorem BatchOf.ungapped (answer : BatchOf stream position limit batch)
    (retains : Retains payloads stream lost) (none : batch.gap = false) :
    lost ≤ position ∧ position ≤ payloads.length := by
  have no : ¬((∃ sequence, position < sequence ∧ sequence ≤ stream.sequence ∧
      stream.records.lookup sequence = Option.none) ∨ stream.sequence < position) := by
    rw [← answer.gap, none]
    exact Bool.false_ne_true
  rw [not_or] at no
  have within : position ≤ payloads.length := retains.sequence ▸ Nat.le_of_not_lt no.2
  refine ⟨?_, within⟩
  by_contra gone
  refine no.1 ⟨position + 1, Nat.lt_succ_self position, ?_, ?_⟩
  · have newest := retains.newest
    rw [retains.sequence]
    omega
  · rw [retains.records, numbered_lookup, if_neg (by omega)]

theorem ReaderSound.take (sound : ReaderSound opened written reader)
    (keyed : opened[stream.token]? = some reader.key)
    (retains : Retains (written stream.token) stream lost)
    (answer : BatchOf stream reader.position limit batch) :
    ReaderSound opened written (reader.take stream.token batch) := by
  have records := answer.records
  rw [recordsAfter_eq retains] at records
  generalize payloads :
    ((written stream.token).drop (max reader.position lost)).take limit = batched at records
  have numbers : batch.records.map Prod.fst =
      range' (max reader.position lost + 1) batched.length := by
    rw [records, numbered_fst]
  have position : (reader.take stream.token batch).position =
      if batched = [] then reader.position
      else max reader.position lost + 1 + batched.length - 1 := by
    rw [← advanced_numbered, ← records]
    rfl
  have taken : ∀ entry ∈ (reader.take stream.token batch).taken, entry ∈ reader.taken ∨
      entry.1 = stream.token ∧ ∃ index, entry.2.1 = max reader.position lost + 1 + index ∧
        batched[index]? = some entry.2.2 := by
    intro entry member
    cases mem_append.mp member with
    | inl earlier => exact .inl earlier
    | inr newer =>
      obtain ⟨record, own, rfl⟩ := mem_map.mp newer
      rw [records, mem_numbered] at own
      exact .inr ⟨rfl, own⟩
  have allNumbers : (reader.take stream.token batch).taken.map (·.2.1) =
      reader.taken.map (·.2.1) ++ range' (max reader.position lost + 1) batched.length := by
    rw [← numbers]
    change (reader.taken ++ batch.records.map fun record => (stream.token, record)).map (·.2.1) = _
    rw [map_append, map_map]
    rfl
  refine ⟨fun entry member => ?_, fun entry member => ?_, ?_, fun entry member => ?_,
    fun none => ?_⟩
  · cases taken entry member with
    | inl earlier => exact sound.keyed entry earlier
    | inr newer =>
      rw [newer.1]
      exact keyed
  · cases taken entry member with
    | inl earlier => exact sound.content entry earlier
    | inr newer =>
      obtain ⟨token, index, number, stored⟩ := newer
      refine ⟨by omega, ?_⟩
      have short := (List.getElem?_eq_some_iff.mp stored).1
      rw [← payloads, List.length_take] at short
      rw [← payloads, getElem?_take_of_lt (by omega), getElem?_drop] at stored
      rw [token, number, ← stored]
      congr 1
      omega
  · rw [allNumbers, pairwise_append]
    refine ⟨sound.ordered, pairwise_lt_range', fun left old right new => ?_⟩
    obtain ⟨entry, member, rfl⟩ := mem_map.mp old
    have before := sound.behind entry member
    have after := (mem_range'_1.mp new).1
    omega
  · rw [position]
    cases taken entry member with
    | inl earlier =>
      have before := sound.behind entry earlier
      split <;> omega
    | inr newer =>
      obtain ⟨_, index, number, stored⟩ := newer
      have short := (List.getElem?_eq_some_iff.mp stored).1
      have some : batched ≠ [] := by
        rintro rfl
        exact Nat.not_lt_zero _ short
      rw [if_neg some]
      omega
  · obtain ⟨before, still⟩ := Bool.or_eq_false_iff.mp none
    obtain ⟨kept, within⟩ := answer.ungapped retains still
    have start : max reader.position lost = reader.position := max_eq_left kept
    rw [allNumbers, sound.whole before, position, start, add_comm reader.position 1,
      range'_append_1]
    congr 1
    split
    case isTrue empty =>
      rw [empty]
      rfl
    case isFalse => omega

structure StreamsKept (maxBytes : Nat) (system : StreamSystem) : Prop where
  streams : StreamsSound system.written system.opened.length system.backend
  limit : system.backend.maxBytes = maxBytes
  keyed : ∀ entry ∈ system.backend.streams, system.opened[entry.2.token]? = some entry.1
  sealed : ∀ entry ∈ system.backend.streams, entry.2.sealed = system.sealed entry.2.token
  unsealed : ∀ token, system.opened.length ≤ token → system.sealed token = false
  readers : ∀ reader ∈ system.readers, ReaderSound system.opened system.written reader

theorem streamsKept_start : StreamsKept maxBytes { backend := { maxBytes := maxBytes } } where
  streams := streamsSound_start
  limit := rfl
  keyed := nofun
  sealed := nofun
  unsealed _ _ := rfl
  readers := nofun

theorem StreamsKept.openStream {key producer : StreamBytes} (kept : StreamsKept maxBytes system) :
    StreamsKept maxBytes (system.openStream key producer) := by
  unfold StreamSystem.openStream
  split
  case h_1 => exact kept
  case h_2 token backend answer =>
    cases openStream_ok kept.streams answer with
    | inl existing =>
      obtain ⟨stream, found, rfl, rfl⟩ := existing
      have known : stream.token < system.opened.length := kept.streams.known _ (stream_mem found)
      rw [if_pos known]
      exact kept
    | inr made =>
      obtain ⟨_, rfl, sound, limit, entries⟩ := made
      have longer : (system.opened ++ [key]).length = system.opened.length + 1 := length_append
      rw [if_neg (lt_irrefl _)]
      refine ⟨longer.symm ▸ sound, limit.trans kept.limit, fun entry member => ?_,
        fun entry member => ?_, fun token later => kept.unsealed token ?_,
        fun reader member => (kept.readers reader member).grow (prefix_append _ _)
          fun _ => prefix_rfl⟩
      · cases entries entry member with
        | inl earlier =>
          exact getElem?_of_prefix (prefix_append _ _) (kept.keyed entry earlier)
        | inr own =>
          dsimp only
          rw [own.1, own.2.1, getElem?_concat_length]
      · cases entries entry member with
        | inl earlier => exact kept.sealed entry earlier
        | inr own =>
          dsimp only
          rw [own.2.1, own.2.2, kept.unsealed _ (le_refl _)]
      · dsimp only at later
        omega

variable {token : Nat} {limit sequence : Int} {payload : StreamBytes} {expired sealing : Bool}

theorem StreamsKept.write (kept : StreamsKept maxBytes system) :
    StreamsKept maxBytes (system.write key token sequence payload sealing) := by
  unfold StreamSystem.write
  split
  case h_1 => exact kept
  case h_2 backend answer =>
    obtain ⟨stream, found, rfl, effect⟩ := write_ok kept.streams answer
    obtain ⟨lost, retains⟩ := kept.streams.retained _ (stream_mem found)
    have length := retains.sequence
    dsimp only at length
    cases effect with
    | inl repeated =>
      obtain ⟨repeats, rfl⟩ := repeated
      have earlier := repeats.earlier
      rw [if_pos (by omega)]
      exact kept
    | inr appended =>
      obtain ⟨continues, sound, limit, entries⟩ := appended
      have later := continues.next
      rw [if_neg (by omega)]
      have made : stream.token < system.opened.length := kept.streams.known _ (stream_mem found)
      refine ⟨sound, limit.trans kept.limit, fun entry member => ?_, fun entry member => ?_,
        fun token beyond => ?_, fun reader member => ?_⟩
      · cases entries entry member with
        | inl other => exact kept.keyed entry other.1
        | inr own =>
          rw [own.1, own.2.1]
          exact kept.keyed _ (stream_mem found)
      · cases entries entry member with
        | inl other =>
          dsimp only
          rw [update_of_ne other.2]
          exact kept.sealed entry other.1
        | inr own =>
          dsimp only
          rw [own.2.1, own.2.2, update_self]
      · dsimp only at beyond ⊢
        rw [update_of_ne (by omega)]
        exact kept.unsealed token beyond
      · refine (kept.readers reader member).grow prefix_rfl fun token => ?_
        by_cases own : token = stream.token
        case pos =>
          dsimp only
          rw [own, update_self]
          exact prefix_append _ _
        case neg =>
          have same := update_of_ne own
            (system.written stream.token ++ [payload]) system.written
          exact (congrArg (system.written token <+: ·) same).mpr prefix_rfl

variable {observed : Option Nat}

theorem ReaderSound.observe (sound : ReaderSound opened written reader) :
    ReaderSound opened written { reader with observed := observed } :=
  ⟨sound.keyed, sound.content, sound.ordered, sound.behind, sound.whole⟩

theorem ReaderSound.lose (sound : ReaderSound opened written reader) :
    ReaderSound opened written (reader.take token StreamBackend.lostBatch) := by
  have taken : (reader.take token StreamBackend.lostBatch).taken = reader.taken := append_nil _
  refine ⟨?_, ?_, ?_, ?_, fun none => ?_⟩
  · rw [taken]
    exact sound.keyed
  · rw [taken]
    exact sound.content
  · rw [taken]
    exact sound.ordered
  · rw [taken]
    exact sound.behind
  · cases (Bool.or_true _).symm.trans none

theorem StreamsKept.lookOf (kept : StreamsKept maxBytes system)
    (sound : ReaderSound system.opened system.written reader) :
    ReaderSound system.opened system.written (system.lookOf reader limit expired) := by
  unfold StreamSystem.lookOf
  by_cases positive : 1 ≤ limit
  case neg =>
    split
    case h_1 => exact sound.observe
    case h_2 => exact sound.observe
    case h_3 batch answer =>
      unfold StreamBackend.look at answer
      obtain ⟨_, _, answer⟩ := bind_eq_ok.mp answer
      obtain ⟨_, minimum, _⟩ := bind_eq_ok.mp answer
      rw [requireInteger, refuse_eq_ok] at minimum
      omega
  case pos =>
    by_cases present : ∃ stream, system.backend.stream? reader.key = some stream ∧
        reader.observed.getD stream.token = stream.token
    case pos =>
      obtain ⟨stream, found, same⟩ := present
      obtain ⟨lost, retains⟩ := kept.streams.retained _ (stream_mem found)
      obtain ⟨batch, answer, looked⟩ :=
        look_present reader.position expired retains found same positive
      rw [looked, found]
      split
      case h_1 => exact sound.observe
      case h_2 => exact sound.observe
      case h_3 given =>
        split at given
        case isTrue =>
          cases given
          exact sound.take (kept.keyed _ (stream_mem found)) retains answer
        case isFalse => cases given
    case neg =>
      have gone : ∀ stream, system.backend.stream? reader.key = some stream →
          reader.observed.getD stream.token ≠ stream.token := by
        intro stream found same
        exact present ⟨stream, found, same⟩
      rw [look_lost reader.position expired gone positive]
      exact sound.lose

variable {call : StreamCall}

theorem StreamsKept.respond (kept : StreamsKept maxBytes system) :
    StreamsKept maxBytes (system.respond call) := by
  cases call with
  | openStream => exact kept.openStream
  | write => exact kept.write
  | startReading key =>
    refine ⟨kept.streams, kept.limit, kept.keyed, kept.sealed, kept.unsealed,
      fun reader member => ?_⟩
    cases mem_append.mp member with
    | inl earlier => exact kept.readers reader earlier
    | inr newer =>
      rw [mem_singleton.mp newer]
      exact readerSound_start
  | look index =>
    refine ⟨kept.streams, kept.limit, kept.keyed, kept.sealed, kept.unsealed,
      fun reader member => ?_⟩
    obtain ⟨place, stored⟩ := mem_iff_getElem?.mp member
    change (system.readers.modify index _)[place]? = some reader at stored
    rw [getElem?_modify] at stored
    obtain ⟨earlier, found, same⟩ := Option.map_eq_some_iff.mp stored
    have sound := kept.readers earlier (mem_of_getElem? found)
    rw [← same]
    split
    case isTrue => exact kept.lookOf sound
    case isFalse => exact sound

variable {start last : StreamSystem} {calls : List StreamCall}

theorem streamsKept_of_run (kept : StreamsKept maxBytes start)
    (run : (streamMachine maxBytes).Run start calls last) : StreamsKept maxBytes last := by
  induction run with
  | nil => exact kept
  | cons step _ ih =>
    cases step
    exact ih kept.respond

structure Gone (system : StreamSystem) (token : Nat) : Prop where
  made : token < system.opened.length
  absent : ∀ entry ∈ system.backend.streams, entry.2.token ≠ token

theorem Gone.respond (gone : Gone system token) (kept : StreamsKept maxBytes system) :
    Gone (system.respond call) token := by
  cases call with
  | openStream key producer =>
    change Gone (system.openStream key producer) token
    unfold StreamSystem.openStream
    split
    case h_1 => exact gone
    case h_2 answer =>
      cases openStream_ok kept.streams answer with
      | inl existing =>
        obtain ⟨stream, found, rfl, rfl⟩ := existing
        rw [if_pos (kept.streams.known _ (stream_mem found))]
        exact gone
      | inr opened =>
        obtain ⟨_, rfl, _, _, entries⟩ := opened
        rw [if_neg (lt_irrefl _)]
        refine ⟨?_, fun entry member => ?_⟩
        · exact lt_of_lt_of_le gone.made (prefix_append _ _).length_le
        · cases entries entry member with
          | inl earlier => exact gone.absent entry earlier
          | inr own =>
            rw [own.2.1]
            exact Nat.ne_of_gt gone.made
  | write key other sequence payload sealing =>
    change Gone (system.write key other sequence payload sealing) token
    unfold StreamSystem.write
    split
    case h_1 => exact gone
    case h_2 backend answer =>
      obtain ⟨stream, found, rfl, effect⟩ := write_ok kept.streams answer
      have absent : ∀ entry ∈ backend.streams, entry.2.token ≠ token := by
        cases effect with
        | inl repeated =>
          rw [repeated.2]
          exact gone.absent
        | inr appended =>
          intro entry member
          cases appended.2.streams entry member with
          | inl other => exact gone.absent entry other.1
          | inr own =>
            rw [own.2.1]
            exact gone.absent _ (stream_mem found)
      split
      case isTrue => exact ⟨gone.made, absent⟩
      case isFalse => exact ⟨gone.made, absent⟩
  | startReading key => exact ⟨gone.made, gone.absent⟩
  | look => exact ⟨gone.made, gone.absent⟩

theorem gone_of_run (gone : Gone start token) (kept : StreamsKept maxBytes start)
    (run : (streamMachine maxBytes).Run start calls last) : Gone last token := by
  induction run with
  | nil => exact gone
  | cons step _ ih =>
    cases step
    exact ih (gone.respond kept) kept.respond

inductive WriteAnswered (system : StreamSystem) (key : StreamBytes) (token : Nat) (sequence : Int)
    (payload : StreamBytes) (sealing : Bool) : Prop
  | repeats {stream : MemoryStream} (found : system.backend.stream? key = some stream)
      (own : stream.token = token) (order : Repeats stream sequence payload sealing)
      (answer : system.backend.write key token sequence payload sealing = .ok system.backend)
  | continues {stream : MemoryStream} {after : StreamBackend}
      (found : system.backend.stream? key = some stream) (own : stream.token = token)
      (order : Continues system.backend.maxBytes stream sequence payload)
      (answer : system.backend.write key token sequence payload sealing = .ok after)
      (effect : Appended system.written system.opened.length system.backend key token payload
        sealing after)
  | refused {refusal : StreamError}
      (never : ¬∃ stream, system.backend.stream? key = some stream ∧ stream.token = token ∧
        (Repeats stream sequence payload sealing ∨
          Continues system.backend.maxBytes stream sequence payload))
      (early : refusal ∉ [.keyError, .stopIteration])
      (answer : system.backend.write key token sequence payload sealing = .error refusal)

theorem StreamsKept.writeAnswered (kept : StreamsKept maxBytes system) :
    WriteAnswered system key token sequence payload sealing := by
  by_cases accepted : ∃ stream, system.backend.stream? key = some stream ∧ stream.token = token ∧
      (Repeats stream sequence payload sealing ∨
        Continues system.backend.maxBytes stream sequence payload)
  case pos =>
    obtain ⟨stream, found, rfl, order⟩ := accepted
    cases order with
    | inl repeats => exact .repeats found rfl repeats (write_repeats found repeats)
    | inr continues =>
      obtain ⟨after, answer, effect⟩ := write_continues sealing kept.streams found continues
      exact .continues found rfl continues answer effect
  case neg =>
    obtain ⟨refusal, answer, early⟩ := write_refused accepted
    exact .refused accepted early answer

/-- A look from any position, by a caller that has seen the stream of the token `observed` or
none. -/
inductive LookAnswered (system : StreamSystem) (key : StreamBytes) (observed : Option Nat)
    (position : Nat) (limit : Int) (expired : Bool) : Prop
  | present {stream : MemoryStream} {batch : StreamBatch}
      (found : system.backend.stream? key = some stream)
      (same : observed.getD stream.token = stream.token)
      (told : BatchOf stream position limit.toNat batch)
      (answer : system.backend.look key observed position limit expired =
        .ok (if batch.records ≠ [] ∨ batch.gap = true ∨ batch.sealed = true ∨ expired = true then
          .batch batch else .wait stream.token))
  | lost (gone : ∀ stream, system.backend.stream? key = some stream →
        observed.getD stream.token ≠ stream.token)
      (answer : system.backend.look key observed position limit expired =
        .ok (.batch ⟨[], true, false⟩))

theorem StreamsKept.lookAnswered (kept : StreamsKept maxBytes system) (positive : 1 ≤ limit) :
    LookAnswered system key observed position limit expired := by
  by_cases present : ∃ stream, system.backend.stream? key = some stream ∧
      observed.getD stream.token = stream.token
  case pos =>
    obtain ⟨stream, found, same⟩ := present
    obtain ⟨lost, retains⟩ := kept.streams.retained _ (stream_mem found)
    obtain ⟨batch, told, answer⟩ := look_present position expired retains found same positive
    exact .present found same told answer
  case neg =>
    have gone : ∀ stream, system.backend.stream? key = some stream →
        observed.getD stream.token ≠ stream.token := by
      intro stream found same
      exact present ⟨stream, found, same⟩
    exact .lost gone (look_lost position expired gone positive)

theorem eq_numbered {records : List (Nat × StreamBytes)} {first : Nat} {payloads : List StreamBytes}
    (numbers : records.map Prod.fst = range' first records.length)
    (content : ∀ record ∈ records, payloads[record.1 - first]? = some record.2) :
    records = numbered first (payloads.take records.length) := by
  induction records generalizing first payloads with
  | nil =>
    rw [length_nil, take_zero]
    rfl
  | cons record rest ih =>
    rw [map_cons, length_cons, range'_succ] at numbers
    obtain ⟨number, others⟩ := List.cons.inj numbers
    have here := content record mem_cons_self
    rw [number, Nat.sub_self] at here
    cases payloads with
    | nil => cases here
    | cons payload payloads =>
      rw [getElem?_cons_zero] at here
      have later := @ih (first + 1) payloads others fun newer member => by
        have beyond : first + 1 ≤ newer.1 := by
          have listed := mem_map_of_mem (f := Prod.fst) member
          rw [others] at listed
          exact (mem_range'_1.mp listed).1
        have index : newer.1 - first = (newer.1 - (first + 1)) + 1 := by omega
        have stored := content newer (mem_cons_of_mem _ member)
        rw [index, getElem?_cons_succ] at stored
        exact stored
      rw [length_cons, take_succ_cons, numbered, ← later]
      exact congrArg (· :: rest) (Prod.ext number (Option.some.inj here).symm)

theorem ReaderSound.taken_eq (sound : ReaderSound opened written reader)
    (single : ∀ other, opened[other]? = some reader.key → other = token)
    (none : reader.gapped = false) :
    reader.taken.map Prod.snd = numbered 1 ((written token).take reader.position) := by
  have whole := sound.whole none
  have length : (reader.taken.map Prod.snd).length = reader.position := by
    rw [length_map, ← length_map (f := (·.2.1)), whole, length_range']
  have numbers : (reader.taken.map Prod.snd).map Prod.fst =
      range' 1 (reader.taken.map Prod.snd).length := by
    rw [length, map_map, ← whole]
    rfl
  rw [← length]
  refine eq_numbered numbers fun record member => ?_
  obtain ⟨entry, taken, rfl⟩ := mem_map.mp member
  rw [← single entry.1 (sound.keyed entry taken)]
  exact (sound.content entry taken).2

/-- Over every run of calls: the account, what the streams retain, what writers and readers are
answered, and what each reader has taken. -/
theorem streams_are_bounded_and_ordered
    (run : (streamMachine maxBytes).Run { backend := { maxBytes := maxBytes } } calls system) :
    (system.backend.size = chargesOf system.backend.streams ∧ system.backend.size ≤ maxBytes) ∧
    (∀ entry ∈ system.backend.streams, entry.2.sealed = system.sealed entry.2.token ∧
      ∃ lost, Retains (system.written entry.2.token) entry.2 lost) ∧
    (∀ token following later, Gone system token →
      (streamMachine maxBytes).Run system following later → ∀ key sequence payload sealing,
        ∃ refusal, later.backend.write key token sequence payload sealing = .error refusal) ∧
    (∀ key producer refusal,
      system.backend.openStream key producer system.opened.length = .error refusal →
      refusal ∉ [.keyError, .stopIteration]) ∧ (∀ key token sequence payload sealing,
      WriteAnswered system key token sequence payload sealing) ∧
    (∀ key observed (position : Nat) limit expired, 1 ≤ limit →
      LookAnswered system key observed position limit expired) ∧
    (∀ reader ∈ system.readers, ReaderSound system.opened system.written reader ∧
      ∀ token, (∀ other, system.opened[other]? = some reader.key → other = token) →
        reader.gapped = false →
        reader.taken.map Prod.snd = numbered 1 ((system.written token).take reader.position)) := by
  have kept := streamsKept_of_run streamsKept_start run
  refine ⟨⟨kept.streams.account, ?_⟩, fun entry member => ?_, ?_, ?_, ?_, ?_, ?_⟩
  · rw [← kept.limit]
    exact kept.streams.bounded
  · exact ⟨kept.sealed entry member, kept.streams.retained entry member⟩
  · intro token following later gone went key sequence payload sealing
    have still := gone_of_run gone kept went
    have never : ¬∃ stream, later.backend.stream? key = some stream ∧ stream.token = token ∧
        (Repeats stream sequence payload sealing ∨
          Continues later.backend.maxBytes stream sequence payload) := by
      rintro ⟨stream, found, own, _⟩
      exact still.absent _ (stream_mem found) own
    obtain ⟨refusal, answer, _⟩ := write_refused never
    exact ⟨refusal, answer⟩
  · intro key producer refusal failed
    cases openStream_error kept.streams failed with
    | inl empty =>
      rw [empty.1]
      decide
    | inr conflict =>
      rw [conflict.1]
      decide
  · exact fun _ _ _ _ _ => kept.writeAnswered
  · exact fun _ _ _ _ _ positive => kept.lookAnswered positive
  · intro reader member
    have sound := kept.readers reader member
    exact ⟨sound, fun token single none => sound.taken_eq single none⟩

theorem stream_run :
    (streamMachine maxBytes).Run start calls (calls.foldl StreamSystem.respond start) := by
  induction calls generalizing start with
  | nil => exact .nil start
  | cons call rest ih => exact .cons rfl ih

/-- The stream of a key is evicted between two reads of one reader, and made anew. -/
def reopening : List StreamCall :=
  [.openStream [1] [0], .write [1] 0 1 [7] false, .startReading [1], .look 0 1 true,
    .write [1] 0 2 [8] false, .openStream [2] [0], .openStream [1] [0], .write [1] 2 1 [9] false,
    .write [1] 2 2 [10] false, .look 0 1 true]

def reopened : StreamSystem :=
  reopening.foldl StreamSystem.respond { backend := { maxBytes := 2 } }

theorem reopened_stream_is_bounded :
    reopened.backend.size = chargesOf reopened.backend.streams ∧ reopened.backend.size ≤ 2 :=
  (streams_are_bounded_and_ordered
    (stream_run : (streamMachine 2).Run { backend := { maxBytes := 2 } } reopening reopened)).1

/-- A key without a stream reads as a gap, though no record was lost, and a reader goes on in
the new stream of its key without one. -/
theorem reader_misreports_gap :
    (¬∀ calls system, (streamMachine 2).Run { backend := { maxBytes := 2 } } calls system →
      ∀ key (position : Nat) batch,
        system.backend.look key none position 1 true = .ok (.batch batch) → batch.gap = true →
        ∃ token, system.opened[token]? = some key ∧ position < (system.written token).length) ∧
    ¬∀ calls system, (streamMachine 2).Run { backend := { maxBytes := 2 } } calls system →
      ∀ reader ∈ system.readers, reader.gapped = false →
        ∃ token < system.opened.length,
          reader.taken.map Prod.snd = numbered 1 ((system.written token).take reader.position) := by
  constructor
  · intro lost
    obtain ⟨token, opened, _⟩ := lost [] _ (.nil _) [1] 0 ⟨[], true, false⟩ rfl rfl
    cases opened
  · intro ordered
    have run : (streamMachine 2).Run { backend := { maxBytes := 2 } } reopening reopened :=
      stream_run
    have crossed : { key := [1], position := 2, taken := [(0, 1, [7]), (2, 2, [10])] } ∈
        reopened.readers := by decide
    have never : ¬∃ token < reopened.opened.length, [(1, [7]), (2, [10])] =
        numbered 1 ((reopened.written token).take 2) := by decide
    exact never (ordered _ _ run _ crossed rfl)

end Linktools.Storage
