import Linktools.Library.Checked
import Linktools.Library.Keyed
import Mathlib.Algebra.Order.BigOperators.Group.List
import Mathlib.Algebra.Ring.Int.Defs

namespace Linktools.Storage

open Library Function
open List hiding count

/-! The in-memory backend of bounded streams under one budget of bytes, evicted by the writes to
others and trimmed by their own. -/

abbrev StreamBytes := List UInt8

inductive StreamError
  | valueError (text : String)
  | storageUnavailable
  | storageConflict
  | keyError
  | stopIteration
deriving DecidableEq

def recordCharge (payload : StreamBytes) : Nat := max 1 payload.length

/-- A stream; its token is drawn when it is made and no other stream has it. -/
structure MemoryStream where
  producer : StreamBytes
  token : Nat
  records : List (Nat × StreamBytes) := []
  size : Int := 0
  sequence : Nat := 0
  sealed : Bool := false

def MemoryStream.charge (stream : MemoryStream) : Int := max 1 stream.size

structure StreamBackend where
  maxBytes : Nat
  streams : List (StreamBytes × MemoryStream) := []
  size : Int := 0

structure StreamBatch where
  records : List (Nat × StreamBytes)
  gap : Bool
  sealed : Bool
deriving DecidableEq

def requireInteger (value minimum : Int) : Except StreamError Unit :=
  refuse (value < minimum)
    (.valueError ("stream position or limit must be an integer >= " ++ toString minimum))

namespace StreamBackend

variable (backend : StreamBackend)

def stream? (key : StreamBytes) : Option MemoryStream := backend.streams.lookup key

def without (key : StreamBytes) : List (StreamBytes × MemoryStream) :=
  backend.streams.filter fun entry => entry.1 ≠ key

def trimRecords (maxBytes : Nat) (stream : MemoryStream) :
    List (Nat × StreamBytes) → Int → Int → Except StreamError (MemoryStream × Int)
  | records, streamSize, size =>
    if size ≤ maxBytes then .ok ({ stream with records := records, size := streamSize }, size)
    else
      match records with
      | [] => .error .keyError
      | (_, payload) :: rest =>
        trimRecords maxBytes stream rest (streamSize - recordCharge payload)
          (size - recordCharge payload)

/-- The oldest streams other than `key` go until the budget holds, and then its oldest
records. -/
def trimStreams (maxBytes : Nat) (key : StreamBytes) : List (StreamBytes × MemoryStream) → Int →
      Except StreamError (List (StreamBytes × MemoryStream) × Int)
  | streams, size =>
    if size ≤ maxBytes then .ok (streams, size)
    else
      match streams with
      | [] => .error .stopIteration
      | (oldest, stream) :: rest =>
        if oldest ≠ key then trimStreams maxBytes key rest (size - stream.charge)
        else do
          let (trimmed, size) ← trimRecords maxBytes stream stream.records stream.size size
          return ((oldest, trimmed) :: rest, size)

def trim (key : StreamBytes) : Except StreamError StreamBackend := do
  let (streams, size) ← trimStreams backend.maxBytes key backend.streams backend.size
  return { backend with streams := streams, size := size }

/-- The token of the stream that the writer of `producer` gets; `token` is a fresh one. -/
def openStream (key producer : StreamBytes) (token : Nat) :
    Except StreamError (Nat × StreamBackend) :=
  match backend.stream? key with
  | none => do
    refuse (backend.maxBytes = 0) .storageUnavailable
    let stream : MemoryStream := { producer := producer, token := token }
    let backend ← { backend with
      streams := backend.streams ++ [(key, stream)]
      size := backend.size + stream.charge }.trim key
    return (token, backend)
  | some stream => do
    refuse (stream.producer ≠ producer) .storageConflict
    return (stream.token, backend)

/-- `_write`, where `sealing` is its flag `seal`. -/
def write (key : StreamBytes) (token : Nat) (sequence : Int) (payload : StreamBytes)
    (sealing : Bool) : Except StreamError StreamBackend := do
  requireInteger sequence 1
  let stream ← orRaise ((backend.stream? key).filter fun stream => stream.token = token)
    .storageConflict
  let sequence := sequence.toNat
  if sequence ≤ stream.sequence then do
    refuse (stream.records.lookup sequence ≠ some payload ∨
      sealing ≠ (stream.sealed && sequence == stream.sequence)) .storageConflict
    return backend
  else do
    refuse (stream.sealed = true ∨ sequence ≠ stream.sequence + 1) .storageConflict
    refuse (backend.maxBytes < recordCharge payload) .storageUnavailable
    let written : MemoryStream :=
      { stream with
        records := stream.records ++ [(sequence, payload)]
        size := stream.size + recordCharge payload
        sequence := sequence
        sealed := sealing }
    { backend with
      streams := backend.without key ++ [(key, written)]
      size := backend.size - stream.charge + written.charge }.trim key

/-- What one look at a stream gives: a batch, or the token of the stream to wait on. -/
inductive Look
  | batch (batch : StreamBatch)
  | wait (token : Nat)
deriving DecidableEq

def lostBatch : StreamBatch := ⟨[], true, false⟩

/-- The look of one turn of the loop of `read_stream`: `observed` is the token that earlier turns
have seen, and `expired` says whether the deadline has passed. -/
def look (key : StreamBytes) (observed : Option Nat) (after limit : Int) (expired : Bool) :
    Except StreamError Look := do
  requireInteger after 0
  requireInteger limit 1
  match (backend.stream? key).filter fun stream => observed.getD stream.token = stream.token with
  | none => return .batch lostBatch
  | some stream => do
    let floor := (stream.records.head?.map Prod.fst).getD (stream.sequence + 1)
    let start := max (after.toNat + 1) floor
    let stop := min (stream.sequence + 1) (start + limit.toNat)
    let records ← (range' start (stop - start)).mapM fun sequence => do
      let payload ← orRaise (stream.records.lookup sequence) .keyError
      return (sequence, payload)
    let gap := after.toNat + 1 < floor || stream.sequence < after.toNat
    let tail := (records.getLast?.map Prod.fst).getD after.toNat
    let sealed := stream.sealed && stream.sequence ≤ tail
    if records ≠ [] ∨ gap = true ∨ sealed = true ∨ expired = true then
      return .batch ⟨records, gap, sealed⟩
    else return .wait stream.token

end StreamBackend

variable {written : List StreamBytes} {stream : MemoryStream} {lost : Nat} {maxBytes : Nat}
  {key : StreamBytes}

def numbered : Nat → List StreamBytes → List (Nat × StreamBytes)
  | _, [] => []
  | first, payload :: rest => (first, payload) :: numbered (first + 1) rest

def chargeSum (payloads : List StreamBytes) : Nat := (payloads.map recordCharge).sum

variable {first : Nat}

theorem numbered_append : numbered first (left ++ right) =
      numbered first left ++ numbered (first + left.length) right := by
  induction left generalizing first with
  | nil => rfl
  | cons payload rest ih =>
    rw [cons_append, numbered, ih, numbered, cons_append, length_cons,
      add_assoc, add_comm 1]

variable {payloads : List StreamBytes}

theorem numbered_fst :
    (numbered first payloads).map Prod.fst = range' first payloads.length := by
  induction payloads generalizing first with
  | nil => rfl
  | cons payload rest ih => rw [numbered, map_cons, ih, length_cons, range'_succ]

theorem numbered_lookup {sequence : Nat} : (numbered first payloads).lookup sequence =
      if first ≤ sequence then payloads[sequence - first]? else none := by
  induction payloads generalizing first with
  | nil =>
    split
    case isTrue => rfl
    case isFalse => rfl
  | cons payload rest ih =>
    rw [numbered, lookup_cons]
    by_cases here : sequence = first
    case pos =>
      rw [here, beq_self_eq_true, if_pos (Nat.le_refl _), Nat.sub_self]
      rfl
    case neg =>
      rw [beq_false_of_ne here, ih]
      dsimp only
      by_cases beyond : first ≤ sequence
      case pos =>
        have next : first + 1 ≤ sequence := by omega
        have index : sequence - first = (sequence - (first + 1)) + 1 := by omega
        rw [if_pos next, if_pos beyond, index, getElem?_cons_succ]
      case neg =>
        have before : ¬first + 1 ≤ sequence := by omega
        rw [if_neg before, if_neg beyond]

theorem recordCharge_pos : 1 ≤ recordCharge payload := le_max_left _ _

theorem chargeSum_cons :
    chargeSum (payload :: rest) = recordCharge payload + chargeSum rest := by
  rw [chargeSum, map_cons, sum_cons, chargeSum]

theorem chargeSum_append : chargeSum (left ++ right) = chargeSum left + chargeSum right := by
  rw [chargeSum, map_append, sum_append, chargeSum, chargeSum]

/-- A stream holds what was written to it but for the oldest records. -/
structure Retains (written : List StreamBytes) (stream : MemoryStream) (lost : Nat) : Prop where
  records : stream.records = numbered (lost + 1) (written.drop lost)
  newest : lost < written.length ∨ lost = 0
  sequence : stream.sequence = written.length
  size : stream.size = chargeSum (written.drop lost)

theorem Retains.charge_eq (retains : Retains written stream lost) (some : lost < written.length) :
    stream.charge = chargeSum (written.drop lost) := by
  have nonempty : written.drop lost ≠ [] := by
    rw [Ne, drop_eq_nil_iff]
    exact Nat.not_le_of_gt some
  obtain ⟨first, rest, split⟩ := exists_cons_of_ne_nil nonempty
  have positive : 1 ≤ chargeSum (written.drop lost) := by
    rw [split, chargeSum_cons]
    have first : 1 ≤ recordCharge first := recordCharge_pos
    omega
  rw [MemoryStream.charge, retains.size]
  omega

theorem trimRecords_ok {first : Nat} {payloads : List StreamBytes} (nonempty : payloads ≠ [])
    (fits : ∀ payload ∈ payloads.getLast?, recordCharge payload ≤ maxBytes) :
    ∃ gone, gone < payloads.length ∧ chargeSum (payloads.drop gone) ≤ maxBytes ∧
      StreamBackend.trimRecords maxBytes stream (numbered first payloads) (chargeSum payloads)
        (chargeSum payloads) = .ok ({ stream with
          records := numbered (first + gone) (payloads.drop gone)
          size := chargeSum (payloads.drop gone) }, chargeSum (payloads.drop gone)) := by
  induction payloads generalizing first with
  | nil => exact absurd rfl nonempty
  | cons payload rest ih =>
    rw [numbered, StreamBackend.trimRecords]
    by_cases holds : ((chargeSum (payload :: rest) : Nat) : Int) ≤ maxBytes
    case pos =>
      refine ⟨0, Nat.succ_pos _, Int.ofNat_le.mp holds, ?_⟩
      rw [if_pos holds]
      rfl
    case neg =>
      have more : rest ≠ [] := by
        rintro rfl
        have single := fits payload rfl
        rw [chargeSum_cons] at holds
        change ¬((recordCharge payload + 0 : Nat) : Int) ≤ maxBytes at holds
        omega
      rw [getLast?_cons_of_ne_nil more] at fits
      obtain ⟨gone, within, bounded, trimmed⟩ := @ih (first + 1) more fits
      have less : ((chargeSum (payload :: rest) : Nat) : Int) - recordCharge payload =
          chargeSum rest := by
        rw [chargeSum_cons]
        omega
      refine ⟨gone + 1, Nat.succ_lt_succ within, bounded, ?_⟩
      rw [if_neg holds, less, trimmed, add_assoc, add_comm 1]
      rfl

def chargesOf (streams : List (StreamBytes × MemoryStream)) : Int :=
  (streams.map fun entry => entry.2.charge).sum

theorem chargesOf_append :
    chargesOf (left ++ right) = chargesOf left + chargesOf right := by
  rw [chargesOf, map_append, sum_append, chargesOf, chargesOf]

theorem chargesOf_single :
    chargesOf [entry] = entry.2.charge := by
  rw [chargesOf, map_singleton, sum_singleton]

structure Trimmed (stream trimmed : MemoryStream) : Prop where
  producer : trimmed.producer = stream.producer
  token : trimmed.token = stream.token
  sequence : trimmed.sequence = stream.sequence
  sealed : trimmed.sealed = stream.sealed

/-- The other streams go first, the oldest ones, and then the oldest records of the stream that
was written. -/
theorem trimStreams_ok (retains : Retains written stream lost) (positive : 1 ≤ maxBytes)
    (fits : ∀ payload ∈ written.getLast?, recordCharge payload ≤ maxBytes)
    (absent : ∀ entry ∈ others, entry.1 ≠ key) :
    ∃ kept trimmed later, kept <:+ others ∧ lost ≤ later ∧ Trimmed stream trimmed ∧
      Retains written trimmed later ∧ chargesOf (kept ++ [(key, trimmed)]) ≤ maxBytes ∧
      StreamBackend.trimStreams maxBytes key (others ++ [(key, stream)])
        (chargesOf (others ++ [(key, stream)])) =
          .ok (kept ++ [(key, trimmed)], chargesOf (kept ++ [(key, trimmed)])) := by
  induction others with
  | nil =>
    rw [nil_append, StreamBackend.trimStreams]
    by_cases holds : chargesOf [(key, stream)] ≤ maxBytes
    case pos =>
      refine ⟨[], stream, lost, nil_suffix, Nat.le_refl _, ⟨rfl, rfl, rfl, rfl⟩, retains,
        holds, ?_⟩
      rw [if_pos holds]
      rfl
    case neg =>
      have some : lost < written.length := by
        by_contra none
        have empty : written.drop lost = [] := drop_eq_nil_of_le (Nat.le_of_not_lt none)
        have size := retains.size
        rw [empty] at size
        rw [chargesOf_single, MemoryStream.charge, size] at holds
        change ¬max 1 ((0 : Nat) : Int) ≤ maxBytes at holds
        omega
      have nonempty : written.drop lost ≠ [] := by
        rw [Ne, drop_eq_nil_iff]
        exact Nat.not_le_of_gt some
      have newest : ∀ payload ∈ (written.drop lost).getLast?, recordCharge payload ≤ maxBytes := by
        rw [getLast?_drop, if_neg (Nat.not_le_of_gt some)]
        exact fits
      have charge := retains.charge_eq some
      obtain ⟨gone, within, bounded, trimmed⟩ :=
        @trimRecords_ok stream maxBytes (lost + 1) _ nonempty newest
      rw [length_drop] at within
      generalize short : ({ stream with
        records := numbered (lost + 1 + gone) ((written.drop lost).drop gone)
        size := chargeSum ((written.drop lost).drop gone) } : MemoryStream) = left at trimmed
      have later : Retains written left (lost + gone) := by
        rw [← short]
        refine ⟨?_, .inl (by omega), retains.sequence, ?_⟩
        · rw [drop_drop, add_right_comm]
        · rw [drop_drop]
      have total := later.charge_eq (by omega)
      rw [← drop_drop] at total
      have same : Trimmed stream left := by
        rw [← short]
        exact ⟨rfl, rfl, rfl, rfl⟩
      refine ⟨[], left, lost + gone, nil_suffix, Nat.le_add_right _ _, same, later, ?_, ?_⟩
      · rw [nil_append, chargesOf_single, total]
        exact Int.ofNat_le.mpr bounded
      · rw [if_neg holds]
        dsimp only
        rw [if_neg (not_not.mpr rfl), chargesOf_single, charge, retains.records, retains.size,
          trimmed, nil_append, chargesOf_single, total]
        rfl
  | cons oldest others ih =>
    rw [cons_append, StreamBackend.trimStreams]
    by_cases holds : chargesOf (oldest :: (others ++ [(key, stream)])) ≤ maxBytes
    case pos =>
      refine ⟨oldest :: others, stream, lost, suffix_rfl, Nat.le_refl _,
        ⟨rfl, rfl, rfl, rfl⟩, retains, holds, ?_⟩
      rw [if_pos holds]
      rfl
    case neg =>
      obtain ⟨kept, trimmed, later, suffix, rest⟩ := ih fun entry member =>
        absent entry (mem_cons_of_mem _ member)
      refine ⟨kept, trimmed, later, suffix.trans (suffix_cons _ _), ?_⟩
      have less : chargesOf (oldest :: (others ++ [(key, stream)])) - oldest.2.charge =
          chargesOf (others ++ [(key, stream)]) := by
        rw [chargesOf, map_cons, sum_cons, ← chargesOf]
        omega
      rw [if_neg holds]
      dsimp only
      rw [if_pos (absent oldest mem_cons_self), less]
      exact rest

/-! The account and the contents of a backend; `written` is what was written to the stream of
each token. -/

structure StreamsSound (written : Nat → List StreamBytes) (next : Nat) (backend : StreamBackend) :
    Prop where
  keys : (backend.streams.map Prod.fst).Nodup
  tokens : (backend.streams.map (·.2.token)).Nodup
  known : ∀ entry ∈ backend.streams, entry.2.token < next
  unwritten : ∀ token, next ≤ token → written token = []
  retained : ∀ entry ∈ backend.streams, ∃ lost, Retains (written entry.2.token) entry.2 lost
  account : backend.size = chargesOf backend.streams
  bounded : backend.size ≤ backend.maxBytes

theorem streamsSound_start :
    StreamsSound (fun _ => []) 0 { maxBytes := maxBytes } where
  keys := nodup_nil
  tokens := nodup_nil
  known := nofun
  unwritten _ _ := rfl
  retained := nofun
  account := rfl
  bounded := Int.natCast_nonneg maxBytes

section Backend

variable {backend : StreamBackend} {histories : Nat → List StreamBytes} {next token : Nat}

theorem stream_split (found : backend.stream? key = some stream) :
    ∃ before rest, backend.streams = before ++ (key, stream) :: rest := by
  obtain ⟨before, rest, split, _⟩ := lookup_eq_some_iff.mp found
  exact ⟨before, rest, split⟩

theorem stream_mem (found : backend.stream? key = some stream) :
    (key, stream) ∈ backend.streams := by
  obtain ⟨before, rest, split⟩ := stream_split found
  rw [split]
  exact mem_append_right _ mem_cons_self

theorem StreamsSound.stream?_eq_some (sound : StreamsSound histories next backend) :
    backend.stream? key = some stream ↔ (key, stream) ∈ backend.streams := by
  refine ⟨stream_mem, fun member => ?_⟩
  have keys := sound.keys
  rw [StreamBackend.stream?, lookup_eq_some_iff]
  obtain ⟨before, rest, split⟩ := append_of_mem member
  refine ⟨before, rest, split, fun entry earlier => ?_⟩
  rw [split, map_append, map_cons, nodup_append] at keys
  exact bne_iff_ne.mpr (keys.2.2 _ (mem_map_of_mem earlier) _ mem_cons_self).symm

/-- A backend right before its trim: the last stream was just made or written. -/
structure Untrimmed (histories : Nat → List StreamBytes) (next : Nat) (backend : StreamBackend)
    (others : List (StreamBytes × MemoryStream)) (key : StreamBytes) (stream : MemoryStream)
    (lost : Nat) : Prop where
  streams : backend.streams = others ++ [(key, stream)]
  keys : (others.map Prod.fst).Nodup
  absent : ∀ entry ∈ others, entry.1 ≠ key
  tokens : (others.map (·.2.token)).Nodup
  apart : ∀ entry ∈ others, entry.2.token ≠ stream.token
  known : ∀ entry ∈ others, entry.2.token < next
  made : stream.token < next
  unwritten : ∀ token, next ≤ token → histories token = []
  retained : ∀ entry ∈ others, ∃ lost, Retains (histories entry.2.token) entry.2 lost
  retains : Retains (histories stream.token) stream lost
  positive : 1 ≤ backend.maxBytes
  fits : ∀ payload ∈ (histories stream.token).getLast?, recordCharge payload ≤ backend.maxBytes
  account : backend.size = chargesOf backend.streams

theorem Untrimmed.trim (untrimmed : Untrimmed histories next backend others key stream lost) :
    ∃ after, backend.trim key = .ok after ∧ StreamsSound histories next after ∧
      after.maxBytes = backend.maxBytes ∧
      ∀ entry ∈ after.streams, entry ∈ others ∨ entry.1 = key ∧ Trimmed stream entry.2 := by
  obtain ⟨streams, keys, absent, tokens, apart, known, made, unwritten, retained, retains,
    positive, fits, account⟩ := untrimmed
  obtain ⟨kept, trimmed, later, suffix, _, same, retainsLater, bounded, ran⟩ :=
    trimStreams_ok retains positive fits absent
  refine ⟨{ backend with
    streams := kept ++ [(key, trimmed)]
    size := chargesOf (kept ++ [(key, trimmed)]) }, ?_, ?_, rfl, ?_⟩
  · rw [StreamBackend.trim, account, streams, ran]
    rfl
  · have own : ∀ entry ∈ kept ++ [(key, trimmed)], entry ∈ others ∨ entry = (key, trimmed) := by
      intro entry member
      cases mem_append.mp member with
      | inl earlier => exact .inl (suffix.subset earlier)
      | inr last => exact .inr (mem_singleton.mp last)
    refine ⟨?_, ?_, ?_, unwritten, ?_, rfl, bounded⟩
    · exact nodup_map_append (keys.sublist (suffix.sublist.map _)) fun entry member =>
        absent entry (suffix.subset member)
    · refine nodup_map_append (tokens.sublist (suffix.sublist.map _)) fun entry member => ?_
      change entry.2.token ≠ trimmed.token
      rw [same.token]
      exact apart entry (suffix.subset member)
    · intro entry member
      cases own entry member with
      | inl earlier => exact known entry earlier
      | inr last =>
        rw [last]
        change trimmed.token < next
        rw [same.token]
        exact made
    · intro entry member
      cases own entry member with
      | inl earlier => exact retained entry earlier
      | inr last =>
        rw [last]
        refine ⟨later, ?_⟩
        change Retains (histories trimmed.token) trimmed later
        rw [same.token]
        exact retainsLater
  · intro entry member
    cases mem_append.mp member with
    | inl earlier => exact .inl (suffix.subset earlier)
    | inr last =>
      rw [mem_singleton.mp last]
      exact .inr ⟨rfl, same⟩

theorem openStream_absent (producer : StreamBytes) (sound : StreamsSound histories next backend)
    (absent : backend.stream? key = none) (positive : backend.maxBytes ≠ 0) :
    ∃ after, backend.openStream key producer next = .ok (next, after) ∧
      StreamsSound histories (next + 1) after ∧ after.maxBytes = backend.maxBytes ∧
      ∀ entry ∈ after.streams, entry ∈ backend.streams ∨
        entry.1 = key ∧ entry.2.token = next ∧ entry.2.sealed = false := by
  have others : ∀ entry ∈ backend.streams, entry.1 ≠ key := by
    intro entry member same
    have found : backend.stream? key = some entry.2 := by
      rw [sound.stream?_eq_some, ← same]
      exact member
    cases absent.symm.trans found
  have empty := sound.unwritten next (Nat.le_refl _)
  have untrimmed : Untrimmed histories (next + 1)
      { backend with
        streams := backend.streams ++ [(key, { producer := producer, token := next })]
        size := backend.size + ({ producer := producer, token := next } : MemoryStream).charge }
      backend.streams key { producer := producer, token := next } 0 := by
    refine ⟨rfl, sound.keys, others, sound.tokens, ?_, ?_, Nat.lt_succ_self next, ?_,
      sound.retained, ?_, Nat.pos_of_ne_zero positive, ?_, ?_⟩
    · exact fun entry member => Nat.ne_of_lt (sound.known entry member)
    · exact fun entry member => Nat.lt_succ_of_lt (sound.known entry member)
    · exact fun token later => sound.unwritten token (Nat.le_of_succ_le later)
    · dsimp only
      rw [empty]
      exact ⟨rfl, .inr rfl, rfl, rfl⟩
    · dsimp only
      rw [empty]
      exact nofun
    · dsimp only
      rw [chargesOf_append, chargesOf_single, sound.account]
  obtain ⟨after, trimmed, soundAfter, limit, entries⟩ := untrimmed.trim
  refine ⟨after, ?_, soundAfter, limit, fun entry member => ?_⟩
  · unfold StreamBackend.openStream
    rw [absent]
    dsimp only
    rw [refuse_of_not positive, ok_bind, trimmed]
    rfl
  · cases entries entry member with
    | inl earlier => exact .inl earlier
    | inr own => exact .inr ⟨own.1, own.2.token, own.2.sealed⟩

theorem without_split (sound : StreamsSound histories next backend)
    (found : backend.stream? key = some stream) :
    ∃ before rest, backend.streams = before ++ (key, stream) :: rest ∧
      backend.without key = before ++ rest := by
  obtain ⟨before, rest, split⟩ := stream_split found
  refine ⟨before, rest, split, ?_⟩
  have keys := sound.keys
  rw [split, map_append, map_cons, nodup_append, nodup_cons] at keys
  obtain ⟨_, ⟨notLater, _⟩, across⟩ := keys
  rw [StreamBackend.without, split, filter_append, filter_cons]
  have skipped : ¬decide ((key, stream).1 ≠ key) = true := by
    rw [decide_eq_true_eq]
    exact not_not.mpr rfl
  rw [if_neg skipped, filter_eq_self.mpr, filter_eq_self.mpr]
  · intro entry member
    exact decide_eq_true fun same => notLater (mem_map.mpr ⟨entry, member, same⟩)
  · intro entry member
    exact decide_eq_true (across _ (mem_map_of_mem member) _ mem_cons_self)

theorem append_ok (sealing : Bool) (sound : StreamsSound histories next backend)
    (found : backend.stream? key = some stream) (fits : recordCharge payload ≤ backend.maxBytes) :
    ∃ after, { backend with
        streams := backend.without key ++ [(key, { stream with
          records := stream.records ++ [(stream.sequence + 1, payload)]
          size := stream.size + recordCharge payload
          sequence := stream.sequence + 1
          sealed := sealing })]
        size := backend.size - stream.charge + ({ stream with
          records := stream.records ++ [(stream.sequence + 1, payload)]
          size := stream.size + recordCharge payload
          sequence := stream.sequence + 1
          sealed := sealing } : MemoryStream).charge }.trim key = .ok after ∧ StreamsSound
        (update histories stream.token (histories stream.token ++ [payload])) next
        after ∧ after.maxBytes = backend.maxBytes ∧
      ∀ entry ∈ after.streams, entry ∈ backend.streams ∧ entry.2.token ≠ stream.token ∨
        entry.1 = key ∧ entry.2.token = stream.token ∧ entry.2.sealed = sealing := by
  obtain ⟨before, rest, split, others⟩ := without_split sound found
  obtain ⟨lost, retains⟩ := sound.retained _ (stream_mem found)
  dsimp only at retains
  generalize writing : ({ stream with
    records := stream.records ++ [(stream.sequence + 1, payload)]
    size := stream.size + recordCharge payload
    sequence := stream.sequence + 1
    sealed := sealing } : MemoryStream) = newer
  have own : newer.token = stream.token ∧ newer.sealed = sealing := by
    rw [← writing]
    exact ⟨rfl, rfl⟩
  have within : lost ≤ (histories stream.token).length := by
    cases retains.newest with
    | inl less => exact le_of_lt less
    | inr none => exact none ▸ Nat.zero_le _
  have longer : Retains (histories stream.token ++ [payload]) newer lost := by
    rw [← writing]
    refine ⟨?_, .inl ?_, ?_, ?_⟩
    · rw [drop_append_of_le_length within, numbered_append, retains.records,
        length_drop, retains.sequence]
      have index : lost + 1 + ((histories stream.token).length - lost) =
          (histories stream.token).length + 1 := by omega
      rw [index]
      rfl
    · rw [length_append]
      exact Nat.lt_succ_of_le within
    · rw [length_append]
      exact congrArg (· + 1) retains.sequence
    · rw [drop_append_of_le_length within, chargeSum_append, Int.natCast_add, retains.size]
      rfl
  have keys := sound.keys
  have tokens := sound.tokens
  have mapped {β : Type} (name : StreamBytes × MemoryStream → β)
      (nodup : (backend.streams.map name).Nodup) : ((before ++ rest).map name).Nodup ∧
        ∀ entry ∈ before ++ rest, name entry ≠ name (key, stream) := by
    rw [split] at nodup
    have moved := (perm_middle.map name).nodup_iff.mp nodup
    rw [map_cons, nodup_cons] at moved
    refine ⟨moved.2, fun entry member same => moved.1 ?_⟩
    rw [← same]
    exact mem_map_of_mem member
  have stored : ∀ entry ∈ before ++ rest, entry ∈ backend.streams := by
    intro entry member
    rw [split]
    cases mem_append.mp member with
    | inl earlier => exact mem_append_left _ earlier
    | inr later => exact mem_append_right _ (mem_cons_of_mem _ later)
  obtain ⟨keysLeft, absent⟩ := mapped Prod.fst keys
  obtain ⟨tokensLeft, apart⟩ := mapped (·.2.token) tokens
  have untouched : ∀ entry ∈ before ++ rest,
      update histories stream.token (histories stream.token ++ [payload])
        entry.2.token = histories entry.2.token := by
    intro entry member
    exact update_of_ne (apart entry member) _ _
  have untrimmed : Untrimmed
      (update histories stream.token (histories stream.token ++ [payload])) next
      { backend with
        streams := backend.without key ++ [(key, newer)]
        size := backend.size - stream.charge + newer.charge }
      (before ++ rest) key newer lost := by
    refine ⟨?_, keysLeft, absent, tokensLeft, ?_, ?_, ?_, ?_, ?_, ?_, ?_, ?_, ?_⟩
    · exact congrArg (· ++ [(key, newer)]) others
    · intro entry member
      rw [own.1]
      exact apart entry member
    · exact fun entry member => sound.known entry (stored entry member)
    · rw [own.1]
      exact sound.known _ (stream_mem found)
    · intro token later
      have other : token ≠ stream.token := by
        have made : stream.token < next := sound.known _ (stream_mem found)
        omega
      rw [update_of_ne other]
      exact sound.unwritten token later
    · intro entry member
      rw [untouched entry member]
      exact sound.retained entry (stored entry member)
    · rw [own.1, update_self]
      exact longer
    · exact le_trans recordCharge_pos fits
    · rw [own.1, update_self]
      intro last found
      rw [getLast?_append_of_ne_nil _ (cons_ne_nil _ _)] at found
      cases found
      exact fits
    · dsimp only
      rw [chargesOf_append, chargesOf_single, others, sound.account, split, chargesOf_append,
        chargesOf_append, ← singleton_append, chargesOf_append, chargesOf_single]
      dsimp only
      omega
  obtain ⟨after, trimmed, soundAfter, limit, entries⟩ := untrimmed.trim
  refine ⟨after, trimmed, soundAfter, limit, fun entry member => ?_⟩
  cases entries entry member with
  | inl earlier => exact .inl ⟨stored entry earlier, apart entry earlier⟩
  | inr written => exact .inr ⟨written.1, written.2.token.trans own.1, written.2.sealed.trans own.2⟩

end Backend

variable {histories : Nat → List StreamBytes} {next token : Nat} {backend after : StreamBackend}

theorem openStream_ok (sound : StreamsSound histories next backend)
    (opened : backend.openStream key producer next = .ok (token, after)) :
    (∃ stream, backend.stream? key = some stream ∧ stream.token = token ∧ after = backend) ∨
      backend.stream? key = none ∧ token = next ∧ StreamsSound histories (next + 1) after ∧
        after.maxBytes = backend.maxBytes ∧ ∀ entry ∈ after.streams, entry ∈ backend.streams ∨
          entry.1 = key ∧ entry.2.token = next ∧ entry.2.sealed = false := by
  cases found : backend.stream? key with
  | none =>
    have positive : backend.maxBytes ≠ 0 := by
      unfold StreamBackend.openStream at opened
      rw [found] at opened
      obtain ⟨_, positive, _⟩ := bind_eq_ok.mp opened
      exact refuse_eq_ok.mp positive
    obtain ⟨made, answer, soundAfter, limit, entries⟩ :=
      openStream_absent producer sound found positive
    cases answer.symm.trans opened
    exact .inr ⟨rfl, rfl, soundAfter, limit, entries⟩
  | some stream =>
    unfold StreamBackend.openStream at opened
    rw [found] at opened
    obtain ⟨_, _, opened⟩ := bind_eq_ok.mp opened
    cases opened
    exact .inl ⟨stream, rfl, rfl, rfl⟩

theorem openStream_error (sound : StreamsSound histories next backend)
    (failed : backend.openStream key producer next = .error error) :
    error = .storageUnavailable ∧ backend.maxBytes = 0 ∨ error = .storageConflict ∧
        ∃ stream, backend.stream? key = some stream ∧ stream.producer ≠ producer := by
  cases found : backend.stream? key with
  | none =>
    by_cases none : backend.maxBytes = 0
    case pos =>
      unfold StreamBackend.openStream at failed
      rw [found] at failed
      dsimp only at failed
      rw [refuse_of none, error_bind] at failed
      cases failed
      exact .inl ⟨rfl, none⟩
    case neg =>
      obtain ⟨made, answer, _⟩ := openStream_absent producer sound found none
      cases answer.symm.trans failed
  | some stream =>
    by_cases other : stream.producer ≠ producer
    case pos =>
      unfold StreamBackend.openStream at failed
      rw [found] at failed
      dsimp only at failed
      rw [refuse_of other, error_bind] at failed
      cases failed
      exact .inr ⟨rfl, stream, rfl, other⟩
    case neg =>
      unfold StreamBackend.openStream at failed
      rw [found] at failed
      dsimp only at failed
      rw [refuse_of_not other] at failed
      cases failed

structure Repeats (stream : MemoryStream) (sequence : Int) (payload : StreamBytes)
    (sealing : Bool) : Prop where
  positive : 1 ≤ sequence
  earlier : sequence ≤ stream.sequence
  retained : stream.records.lookup sequence.toNat = some payload
  sealing : sealing = (stream.sealed && sequence.toNat == stream.sequence)

structure Continues (maxBytes : Nat) (stream : MemoryStream) (sequence : Int)
    (payload : StreamBytes) : Prop where
  unsealed : stream.sealed = false
  next : sequence = stream.sequence + 1
  fits : recordCharge payload ≤ maxBytes

structure Appended (histories : Nat → List StreamBytes) (next : Nat) (backend : StreamBackend)
    (key : StreamBytes) (token : Nat) (payload : StreamBytes) (sealing : Bool)
    (after : StreamBackend) : Prop where
  sound : StreamsSound (update histories token (histories token ++ [payload])) next after
  maxBytes : after.maxBytes = backend.maxBytes
  streams : ∀ entry ∈ after.streams, entry ∈ backend.streams ∧ entry.2.token ≠ token ∨
    entry.1 = key ∧ entry.2.token = token ∧ entry.2.sealed = sealing

variable {sequence : Int}

theorem write_repeats (found : backend.stream? key = some stream)
    (repeats : Repeats stream sequence payload sealing) :
    backend.write key stream.token sequence payload sealing = .ok backend := by
  have own : (backend.stream? key).filter (fun other => other.token = stream.token) =
      some stream := by
    rw [found, Option.filter_some, if_pos (decide_eq_true rfl)]
  have small : ¬sequence < 1 := Int.not_lt.mpr repeats.positive
  have same : ¬(stream.records.lookup sequence.toNat ≠ some payload ∨
      sealing ≠ (stream.sealed && sequence.toNat == stream.sequence)) := by
    rw [not_or, not_not, not_not]
    exact ⟨repeats.retained, repeats.sealing⟩
  have earlier := repeats.earlier
  unfold StreamBackend.write
  rw [requireInteger, refuse_of_not small, ok_bind, own, orRaise, ok_bind]
  dsimp only
  rw [if_pos (by omega), refuse_of_not same]
  rfl

theorem write_continues (sealing : Bool) (sound : StreamsSound histories next backend)
    (found : backend.stream? key = some stream)
    (continues : Continues backend.maxBytes stream sequence payload) :
    ∃ after, backend.write key stream.token sequence payload sealing = .ok after ∧
      Appended histories next backend key stream.token payload sealing after := by
  obtain ⟨after, trimmed, soundAfter, limit, entries⟩ :=
    append_ok sealing sound found continues.fits
  refine ⟨after, ?_, soundAfter, limit, entries⟩
  have own : (backend.stream? key).filter (fun other => other.token = stream.token) =
      some stream := by
    rw [found, Option.filter_some, if_pos (decide_eq_true rfl)]
  have order := continues.next
  have small : ¬sequence < 1 := by omega
  have index : sequence.toNat = stream.sequence + 1 := by omega
  have ordered : ¬(stream.sealed = true ∨ stream.sequence + 1 ≠ stream.sequence + 1) := by
    rw [continues.unsealed]
    simp
  have fits : ¬backend.maxBytes < recordCharge payload := not_lt.mpr continues.fits
  unfold StreamBackend.write
  rw [requireInteger, refuse_of_not small, ok_bind, own, orRaise, ok_bind]
  dsimp only
  rw [index, if_neg (by omega), refuse_of_not ordered, ok_bind, refuse_of_not fits, ok_bind]
  exact trimmed

theorem write_refused (never : ¬∃ stream, backend.stream? key = some stream ∧ stream.token = token ∧
      (Repeats stream sequence payload sealing ∨
        Continues backend.maxBytes stream sequence payload)) :
    ∃ refusal, backend.write key token sequence payload sealing = .error refusal ∧
      refusal ∉ [.keyError, .stopIteration] := by
  unfold StreamBackend.write
  rw [requireInteger]
  by_cases small : sequence < 1
  case pos => refine ⟨_, by rw [refuse_of small]; rfl, by simp⟩
  case neg =>
    rw [refuse_of_not small, ok_bind]
    cases own : (backend.stream? key).filter (fun stream => stream.token = token) with
    | none => exact ⟨.storageConflict, rfl, by decide⟩
    | some stream =>
      rw [orRaise, ok_bind]
      rw [Option.filter_eq_some_iff, decide_eq_true_eq] at own
      dsimp only
      by_cases earlier : sequence.toNat ≤ stream.sequence
      case pos =>
        rw [if_pos earlier]
        by_cases other : stream.records.lookup sequence.toNat ≠ some payload ∨
            sealing ≠ (stream.sealed && sequence.toNat == stream.sequence)
        case pos => exact ⟨.storageConflict, by rw [refuse_of other]; rfl, by decide⟩
        case neg =>
          rw [not_or, not_not, not_not] at other
          have repeats : Repeats stream sequence payload sealing :=
            ⟨by omega, by omega, other.1, other.2⟩
          exact absurd ⟨stream, own.1, own.2, .inl repeats⟩ never
      case neg =>
        rw [if_neg earlier]
        by_cases conflict : stream.sealed = true ∨ sequence.toNat ≠ stream.sequence + 1
        case pos => exact ⟨.storageConflict, by rw [refuse_of conflict]; rfl, by decide⟩
        case neg =>
          rw [refuse_of_not conflict, ok_bind]
          rw [not_or, not_not, Bool.not_eq_true] at conflict
          by_cases large : backend.maxBytes < recordCharge payload
          case pos => exact ⟨.storageUnavailable, by rw [refuse_of large]; rfl, by decide⟩
          case neg =>
            have continues : Continues backend.maxBytes stream sequence payload :=
              ⟨conflict.1, by omega, Nat.le_of_not_lt large⟩
            exact absurd ⟨stream, own.1, own.2, .inr continues⟩ never

theorem write_ok (sound : StreamsSound histories next backend)
    (wrote : backend.write key token sequence payload sealing = .ok after) :
    ∃ stream, backend.stream? key = some stream ∧ stream.token = token ∧
      (Repeats stream sequence payload sealing ∧ after = backend ∨
        Continues backend.maxBytes stream sequence payload ∧
          Appended histories next backend key token payload sealing after) := by
  by_contra never
  by_cases accepted : ∃ stream, backend.stream? key = some stream ∧ stream.token = token ∧
      (Repeats stream sequence payload sealing ∨ Continues backend.maxBytes stream sequence payload)
  case pos =>
    obtain ⟨stream, found, rfl, order⟩ := accepted
    cases order with
    | inl repeats =>
      cases (write_repeats found repeats).symm.trans wrote
      exact never ⟨stream, found, rfl, .inl ⟨repeats, rfl⟩⟩
    | inr continues =>
      obtain ⟨appended, answer, effect⟩ := write_continues sealing sound found continues
      cases answer.symm.trans wrote
      exact never ⟨stream, found, rfl, .inr ⟨continues, effect⟩⟩
  case neg =>
    obtain ⟨refusal, answer, _⟩ := write_refused accepted
    cases answer.symm.trans wrote

def recordsAfter (stream : MemoryStream) (position limit : Nat) : List (Nat × StreamBytes) :=
  (stream.records.filter fun record => position < record.1).take limit

def advanced (position : Nat) (records : List (Nat × StreamBytes)) : Nat :=
  (records.getLast?.map Prod.fst).getD position

structure BatchOf (stream : MemoryStream) (position limit : Nat) (batch : StreamBatch) : Prop where
  records : batch.records = recordsAfter stream position limit
  gap : batch.gap = true ↔ (∃ sequence, position < sequence ∧ sequence ≤ stream.sequence ∧
      stream.records.lookup sequence = none) ∨ stream.sequence < position
  sealed : batch.sealed = true ↔
    stream.sealed = true ∧ stream.sequence ≤ advanced position batch.records

theorem numbered_filter :
    (numbered first payloads).filter (fun record => position < record.1) =
      numbered (max (position + 1) first) (payloads.drop (position + 1 - first)) := by
  induction payloads generalizing first with
  | nil =>
    rw [drop_nil]
    rfl
  | cons payload rest ih =>
    rw [numbered, filter_cons]
    by_cases later : position < first
    case pos =>
      have none : position + 1 - first = 0 := by omega
      have before : position + 1 - (first + 1) = 0 := by omega
      have start : max (position + 1) first = first := by omega
      have following : max (position + 1) (first + 1) = first + 1 := by omega
      rw [if_pos (decide_eq_true later), ih, none, before, start, following, drop_zero,
        drop_zero, numbered]
    case neg =>
      have skipped : position + 1 - first = (position + 1 - (first + 1)) + 1 := by omega
      have start : max (position + 1) (first + 1) = max (position + 1) first := by omega
      rw [if_neg (Bool.not_eq_true _ ▸ decide_eq_false later), ih, skipped, start,
        drop_succ_cons]

theorem numbered_take :
    (numbered first payloads).take count = numbered first (payloads.take count) := by
  induction payloads generalizing first count with
  | nil =>
    rw [take_nil]
    exact take_nil
  | cons payload rest ih =>
    cases count with
    | zero => rfl
    | succ count => rw [numbered, take_succ_cons, take_succ_cons, ih, numbered]

theorem mapM_numbered {records : List (Nat × StreamBytes)}
    (stored : ∀ index (within : index < payloads.length),
      records.lookup (start + index) = some payloads[index]) :
    ((range' start payloads.length).mapM fun sequence => do
      let payload ← orRaise (records.lookup sequence) StreamError.keyError
      return (sequence, payload)) = .ok (numbered start payloads) := by
  induction payloads generalizing start with
  | nil => rfl
  | cons payload rest ih =>
    have first := stored 0 (Nat.succ_pos _)
    rw [add_zero] at first
    have others := @ih (start + 1) fun index within => by
      have next := stored (index + 1) (Nat.succ_lt_succ within)
      rw [add_assoc, add_comm 1]
      exact next
    rw [length_cons, range'_succ, mapM_cons, first, orRaise, ok_bind, others]
    rfl

variable {observed : Option Nat}

theorem look_present (position : Nat) (expired : Bool) (retains : Retains written stream lost)
    (found : backend.stream? key = some stream) (same : observed.getD stream.token = stream.token)
    (positive : 1 ≤ limit) :
    ∃ batch, BatchOf stream position limit.toNat batch ∧
      backend.look key observed position limit expired =
        .ok (if batch.records ≠ [] ∨ batch.gap = true ∨ batch.sealed = true ∨ expired = true then
          .batch batch else .wait stream.token) := by
  have within : lost ≤ written.length := by
    cases retains.newest with
    | inl less => exact le_of_lt less
    | inr none => exact none ▸ Nat.zero_le _
  have floor : (stream.records.head?.map Prod.fst).getD (stream.sequence + 1) = lost + 1 := by
    rw [retains.records, retains.sequence]
    cases rest : written.drop lost with
    | nil =>
      have short : written.length ≤ lost := drop_eq_nil_iff.mp rest
      have equal : written.length = lost := by omega
      rw [equal]
      rfl
    | cons => rfl
  have start : max (position + 1) (lost + 1) = max position lost + 1 := by omega
  have own : (backend.stream? key).filter
      (fun other => observed.getD other.token = other.token) = some stream := by
    rw [found, Option.filter_some, if_pos (decide_eq_true same)]
  have lookups : ∀ sequence, stream.records.lookup sequence =
      if lost + 1 ≤ sequence then written[sequence - 1]? else none := by
    intro sequence
    rw [retains.records, numbered_lookup]
    split
    case isTrue later =>
      rw [getElem?_drop]
      congr 1
      omega
    case isFalse => rfl
  have records : recordsAfter stream position limit.toNat =
      numbered (max position lost + 1) ((written.drop (max position lost)).take limit.toNat) := by
    rw [recordsAfter, retains.records, numbered_filter, numbered_take, drop_drop, start]
    have index : lost + (position + 1 - (lost + 1)) = max position lost := by omega
    rw [index]
  have count : min (stream.sequence + 1) (max position lost + 1 + limit.toNat) -
      (max position lost + 1) = ((written.drop (max position lost)).take limit.toNat).length := by
    rw [length_take, length_drop, retains.sequence]
    omega
  have stored : ∀ index
      (inside : index < ((written.drop (max position lost)).take limit.toNat).length),
      stream.records.lookup (max position lost + 1 + index) =
        some ((written.drop (max position lost)).take limit.toNat)[index] := by
    intro index inside
    rw [lookups, if_pos (by omega), ← getElem?_eq_getElem inside,
      getElem?_take_of_lt (by rw [length_take] at inside; omega), getElem?_drop]
    congr 1
    omega
  have taken := mapM_numbered stored
  rw [← records] at taken
  refine ⟨⟨recordsAfter stream position limit.toNat,
    position + 1 < lost + 1 || stream.sequence < position, stream.sealed && stream.sequence ≤
      advanced position (recordsAfter stream position limit.toNat)⟩, ⟨rfl, ?_, ?_⟩, ?_⟩
  · dsimp only
    rw [Bool.or_eq_true, decide_eq_true_eq, decide_eq_true_eq]
    refine or_congr_left ⟨fun less => ?_, ?_⟩
    · refine ⟨position + 1, Nat.lt_succ_self position, ?_, ?_⟩
      · rw [retains.sequence]
        omega
      · rw [lookups, if_neg (by omega)]
    · rintro ⟨sequence, beyond, known, missing⟩
      rw [lookups] at missing
      split at missing
      case isTrue later =>
        rw [getElem?_eq_none_iff] at missing
        rw [retains.sequence] at known
        omega
      case isFalse earlier => omega
  · dsimp only
    rw [Bool.and_eq_true, decide_eq_true_eq]
  · have notNegative : ¬(position : Int) < 0 := by omega
    have notSmall : ¬limit < 1 := Int.not_lt.mpr positive
    unfold StreamBackend.look
    rw [requireInteger, refuse_of_not notNegative, ok_bind, requireInteger,
      refuse_of_not notSmall, ok_bind, own]
    dsimp only
    rw [Int.toNat_natCast, floor, start, count, taken, ok_bind]
    split
    case isTrue answered => exact congrArg Except.ok (if_pos answered).symm
    case isFalse waits => exact congrArg Except.ok (if_neg waits).symm

theorem look_lost (position : Nat) (expired : Bool)
    (gone : ∀ stream, backend.stream? key = some stream → observed.getD stream.token ≠ stream.token)
    (positive : 1 ≤ limit) :
    backend.look key observed position limit expired = .ok (.batch StreamBackend.lostBatch) := by
  have none : (backend.stream? key).filter
      (fun stream => observed.getD stream.token = stream.token) = none := by
    rw [Option.filter_eq_none_iff]
    intro stream found
    rw [decide_eq_true_eq]
    exact gone stream found
  have notNegative : ¬(position : Int) < 0 := by omega
  have notSmall : ¬limit < 1 := Int.not_lt.mpr positive
  unfold StreamBackend.look
  rw [requireInteger, refuse_of_not notNegative, ok_bind, requireInteger,
    refuse_of_not notSmall, ok_bind, none]
  rfl

end Linktools.Storage
