import Linktools.Cache.BufferViews
import Mathlib.Data.List.Dedup

namespace Linktools.Cache

open Linktools.Core Library Function List

variable {Key : Type} {batchSize : Nat} {maxAge : ViewId → Time}
  {origin : Key → Payload} {buffer after : StorageBuffer Key} {get : BufferGet Key} {key : Key}
  {batch : List (Entry Key)}

variable {next scope : BatchScope Key}

theorem AdmissionStep.quiet (step : AdmissionStep scope next)
    (same : next.observed = scope.observed) :
    next.writer = scope.writer ∧ next.settled = scope.settled := by
  cases step with
  | admitted =>
    have longer := congrArg (fun observed : Observed Key => observed.admitted.length) same
    change (scope.observed.admitted ++ [_]).length = _ at longer
    rw [length_append] at longer
    exact absurd longer (Nat.succ_ne_self _)
  | began | refused | published | rejected | cancelled | raised | flushed => exact ⟨rfl, rfl⟩

theorem WriterStep.quiet (step : WriterStep batchSize scope next)
    (same : ∀ batch, next.writer = .writing batch ↔ scope.writer = .writing batch) :
    next.observed = scope.observed ∧ (next.settled = scope.settled ∨
      ∃ batch, scope.writer = .acking batch ∧ next.settled = scope.settled + batch.length) := by
  cases step with
  | stopped | cancelled | asked | returned | raised | timedOut | interrupted | retried | gaveUp
  | ackInterrupted | reported => exact ⟨rfl, .inl rfl⟩
  | @readCancelled => split <;> exact ⟨rfl, .inl rfl⟩
  | @handed limit batch reading =>
    have writing := (same batch).mp rfl
    rw [reading] at writing
    cases writing
  | @confirmed batch writing | @writeFailed batch code writing =>
    have acking := (same batch).mpr writing
    cases acking
  | @acked batch acking => exact ⟨rfl, .inr ⟨batch, acking, rfl⟩⟩
  | ackCancelled => split <;> exact ⟨rfl, .inl rfl⟩

theorem BatchSound.acked_length (sound : BatchSound scope) (acking : scope.writer = .acking batch) :
    scope.settled + batch.length = scope.observed.handed.length := by
  have working : ¬scope.writer.Done := by
    rw [acking]
    exact id
  obtain ⟨rest, tail, placed⟩ := sound.exists_placed working
  have positioned := placed.2.2.2
  rw [Positioned, acking] at positioned
  obtain ⟨_, _, done, handed, settled⟩ := positioned
  rw [handed, settled, length_append]

namespace StorageBuffer

def inflight (buffer : StorageBuffer Key) : List (Entry Key) :=
  match buffer.sink, buffer.scope.writer with
  | .applying, .writing batch => batch
  | _, _ => []

def waiting (buffer : StorageBuffer Key) : List (Entry Key) :=
  buffer.scope.observed.admitted.drop buffer.consumed.length

end StorageBuffer

theorem inflight_of_writer
    (writer : ∀ batch, scope.writer = .writing batch ↔ buffer.scope.writer = .writing batch) :
    ({ buffer with scope := scope } : StorageBuffer Key).inflight = buffer.inflight := by
  unfold StorageBuffer.inflight
  dsimp only
  cases buffer.sink with
  | applying =>
    cases before : buffer.scope.writer with
    | writing batch => rw [(writer batch).mpr before]
    | absent | looping | reading | acking | finished =>
      cases now : scope.writer with
      | writing batch =>
        rw [(writer batch).mp now] at before
        cases before
      | absent | looping | reading | acking | finished => rfl
  | idle | returned => rfl

def GetStage.waits : GetStage → Bool
  | .asking _ | .loading _ _ | .loaded _ _ => true
  | _ => false

def GetStage.value : GetStage → Option Payload
  | .loading _ seen => seen
  | .loaded _ value | .answered value => some value
  | _ => none

def GetStage.fill : GetStage → Option Nat
  | .loading fill _ | .loaded fill _ => some fill
  | _ => none

variable [DecidableEq Key]

structure GetSound (buffer : StorageBuffer Key) (get : BufferGet Key) : Prop where
  past : get.mutation ≤ (buffer.keys get.key).mutation
  assigned : get.stage.waits = true → (get.key, get.token) ∈ buffer.assigned
  own : ∀ fill, get.stage.fill = some fill → fill ∈ buffer.hot.fills.map Fill.id ∧
    ∀ label ∈ buffer.labels, ∀ owner token, label.event = .began fill owner token →
      token = get.token

/-- A round sees what was admitted when it began, as long as nothing happens to its key; and what
it loads for the tier is what the store has for good. -/
structure GetLive (origin : Key → Payload) (buffer : StorageBuffer Key) (get : BufferGet Key) :
    Prop where
  settled : get.stage.waits = true → buffer.Unchanged get → (buffer.keys get.key).pending = none
  seen : ∀ value, get.stage.value = some value → buffer.Unchanged get →
    value = lastValue origin buffer.scope.observed.admitted get.key
  loads : ∀ fill value, get.stage = .loading fill (some value) →
    (get.key, get.token) ∈ buffer.hotKeys → Begun buffer.labels fill get.token →
      get.key ∉ buffer.inflight.map Entry.key → value = lastValue origin buffer.consumed get.key

structure BufferLive (origin : Key → Payload) (buffer : StorageBuffer Key) : Prop where
  handed : buffer.scope.observed.handed = buffer.consumed ++ buffer.inflight
  pending : ∀ key, (buffer.keys key).pending = lastEntry key buffer.waiting
  store : ∀ key, buffer.store key = lastValue origin buffer.consumed key ∨
    buffer.store key = lastValue origin buffer.scope.observed.handed key
  resolved : buffer.scope.settled ≤ buffer.consumed.length
  gets : ∀ get ∈ buffer.gets, GetLive origin buffer get
  loads : ∀ key token, (key, token) ∈ buffer.hotKeys → ∀ fill time value,
    Begun buffer.labels fill token → ⟨time, .returned fill value⟩ ∈ buffer.labels →
      key ∉ buffer.inflight.map Entry.key → value = lastValue origin buffer.consumed key

structure BufferSound (batchSize : Nat) (maxAge : ViewId → Time) (origin : Key → Payload)
    (buffer : StorageBuffer Key) : Prop where
  scope : (batchMachine Key batchSize).Reachable buffer.scope
  sink : (∃ batch, buffer.scope.writer = .writing batch) ∨ buffer.sink = .idle
  busy : buffer.sink = .idle → ∀ batch, buffer.scope.writer ≠ .writing batch
  hot : HotSound maxAge buffer.hot buffer.labels buffer.hotKeys buffer.assigned
  gets : ∀ get ∈ buffer.gets, GetSound buffer get
  live : buffer.failure = false → BufferLive origin buffer

namespace BufferLive

section

variable (live : BufferLive origin buffer)
include live

theorem order (scope : (batchMachine Key batchSize).Reachable buffer.scope) :
    buffer.scope.observed.admitted = buffer.consumed ++ buffer.waiting := by
  have front : buffer.consumed <+: buffer.scope.observed.admitted := by
    have order := (batchSound_of_reachable scope).order
    rw [live.handed] at order
    exact (prefix_append _ _).trans order
  rw [StorageBuffer.waiting, ← prefix_append_drop front]

theorem inflight_prefix (scope : (batchMachine Key batchSize).Reachable buffer.scope) :
    buffer.inflight <+: buffer.waiting := by
  have order := (batchSound_of_reachable scope).order
  rw [live.handed, live.order scope] at order
  exact (prefix_append_right_inj _).mp order

theorem settled_of_none (scope : (batchMachine Key batchSize).Reachable buffer.scope)
    (none : (buffer.keys key).pending = none) : key ∉ buffer.inflight.map Entry.key ∧
      lastValue origin buffer.scope.observed.admitted key =
        lastValue origin buffer.consumed key := by
  have absent : key ∉ buffer.waiting.map Entry.key := by
    rw [← lastEntry_eq_none_iff, ← live.pending]
    exact none
  refine ⟨fun member => absent ?_, ?_⟩
  · exact (live.inflight_prefix scope).sublist.map Entry.key |>.subset member
  · rw [live.order scope, lastValue_append_of_absent absent]

theorem store_of_absent (absent : key ∉ buffer.inflight.map Entry.key) :
    buffer.store key = lastValue origin buffer.consumed key := by
  cases live.store key with
  | inl same => exact same
  | inr same => rw [same, live.handed, lastValue_append_of_absent absent]

end

end BufferLive

section

variable (sound : BufferSound batchSize maxAge origin buffer)
include sound

theorem BufferSound.of_scope (reachable : (batchMachine Key batchSize).Reachable scope)
    (observed : scope.observed.admitted = buffer.scope.observed.admitted ∧
      scope.observed.handed = buffer.scope.observed.handed)
    (writer : ∀ batch, scope.writer = .writing batch ↔ buffer.scope.writer = .writing batch)
    (settled : buffer.failure = false → BufferLive origin buffer →
      scope.settled ≤ buffer.consumed.length) :
    BufferSound batchSize maxAge origin { buffer with scope := scope } := by
  have inflight := inflight_of_writer writer
  have waiting : ({ buffer with scope := scope } : StorageBuffer Key).waiting = buffer.waiting := by
    unfold StorageBuffer.waiting
    rw [observed.1]
  refine ⟨reachable, ?_, ?_, sound.hot, ?_, fun unfailed => ?_⟩
  · cases sound.sink with
    | inl writing =>
      obtain ⟨batch, writing⟩ := writing
      exact .inl ⟨batch, (writer batch).mpr writing⟩
    | inr idle => exact .inr idle
  · exact fun idle batch writing => sound.busy idle batch ((writer batch).mp writing)
  · exact fun get member => ⟨(sound.gets get member).past, (sound.gets get member).assigned,
      (sound.gets get member).own⟩
  · have live := sound.live unfailed
    refine ⟨?_, ?_, ?_, settled unfailed live, ?_, ?_⟩
    · rw [inflight, observed.2]
      exact live.handed
    · rw [waiting]
      exact live.pending
    · rw [observed.2]
      exact live.store
    · intro get member
      have getLive := live.gets get member
      refine ⟨getLive.settled, ?_, ?_⟩
      · rw [observed.1]
        exact getLive.seen
      · rw [inflight]
        exact getLive.loads
    · rw [inflight]
      exact live.loads

theorem BufferSound.admission (step : AdmissionStep buffer.scope scope)
    (same : scope.observed = buffer.scope.observed) :
    BufferSound batchSize maxAge origin { buffer with scope := scope } := by
  obtain ⟨writer, settled⟩ := step.quiet same
  apply sound.of_scope (reachable_batchStep sound.scope (.admission step))
  · rw [same]
    exact ⟨rfl, rfl⟩
  · intro batch
    rw [writer]
  · intro _ live
    rw [settled]
    exact live.resolved

theorem BufferSound.writer (step : WriterStep batchSize buffer.scope scope)
    (same : ∀ batch, scope.writer = .writing batch ↔ buffer.scope.writer = .writing batch) :
    BufferSound batchSize maxAge origin { buffer with scope := scope } := by
  obtain ⟨observed, settled⟩ := step.quiet same
  apply sound.of_scope (reachable_batchStep sound.scope (.writer step)) _ same
  · intro _ live
    cases settled with
    | inl settled =>
      rw [settled]
      exact live.resolved
    | inr acked =>
      obtain ⟨batch, acking, settled⟩ := acked
      have none_flying : buffer.inflight = [] := by
        unfold StorageBuffer.inflight
        rw [acking]
        cases buffer.sink <;> rfl
      rw [settled, (batchSound_of_reachable sound.scope).acked_length acking, live.handed,
        none_flying, append_nil]
  · rw [observed]
    exact ⟨rfl, rfl⟩

theorem BufferSound.admitted {entry : Entry Key}
    (calling : buffer.scope.admission = some { entry := entry, published := true }) :
    BufferSound batchSize maxAge origin (buffer.accept entry) := by
  have writer : ∀ batch, (buffer.scope.admitted entry).writer = .writing batch ↔
      buffer.scope.writer = .writing batch := by
    intro batch
    rw [BatchScope.admitted]
    cases buffer.scope.writer <;> simp
  have inflight : (buffer.accept entry).inflight = buffer.inflight := inflight_of_writer writer
  have other : ∀ key, key ≠ entry.key → (buffer.accept entry).keys key = buffer.keys key :=
    fun key different => update_of_ne different _ _
  have own : (buffer.accept entry).keys entry.key =
      ⟨(buffer.keys entry.key).mutation + 1, some entry⟩ := update_self _ _ _
  refine ⟨reachable_batchStep sound.scope (.admission (.admitted calling)), ?_, ?_, sound.hot,
    ?_, fun unfailed => ?_⟩
  · cases sound.sink with
    | inl writing =>
      obtain ⟨batch, writing⟩ := writing
      exact .inl ⟨batch, (writer batch).mpr writing⟩
    | inr idle => exact .inr idle
  · exact fun idle batch writing => sound.busy idle batch ((writer batch).mp writing)
  · intro get member
    obtain ⟨past, assigned, owns⟩ := sound.gets get member
    refine ⟨?_, assigned, owns⟩
    by_cases same : get.key = entry.key
    case pos =>
      rw [same, own]
      rw [same] at past
      exact Nat.le_succ_of_le past
    case neg =>
      rw [other get.key same]
      exact past
  · have live := sound.live unfailed
    have waiting : (buffer.accept entry).waiting = buffer.waiting ++ [entry] := by
      have front := live.order sound.scope
      have within : buffer.consumed.length ≤ buffer.scope.observed.admitted.length := by
        rw [front, length_append]
        exact Nat.le_add_right _ _
      exact drop_append_of_le_length within
    refine ⟨?_, ?_, live.store, live.resolved, ?_, ?_⟩
    · rw [inflight]
      exact live.handed
    · intro key
      rw [waiting, lastEntry_append, lastEntry_singleton]
      by_cases same : key = entry.key
      case pos =>
        rw [same, own, if_pos rfl]
        rfl
      case neg =>
        rw [other key same, if_neg (Ne.symm same), live.pending]
        rfl
    · intro get member
      have getLive := live.gets get member
      by_cases same : get.key = entry.key
      case pos =>
        have changed : ¬(buffer.accept entry).Unchanged get := by
          rw [StorageBuffer.Unchanged, same, own]
          have past := (sound.gets get member).past
          rw [same] at past
          exact Nat.ne_of_lt (Nat.lt_succ_of_le past)
        refine ⟨fun _ unchanged => absurd unchanged changed,
          fun _ _ unchanged => absurd unchanged changed, ?_⟩
        rw [inflight]
        exact getLive.loads
      case neg =>
        refine ⟨?_, ?_, ?_⟩
        · rw [StorageBuffer.Unchanged, other get.key same]
          exact getLive.settled
        · rw [StorageBuffer.Unchanged, other get.key same]
          intro value seen unchanged
          rw [getLive.seen value seen unchanged]
          symm
          apply lastValue_append_of_absent
          rw [map_singleton, mem_singleton]
          exact same
        · rw [inflight]
          exact getLive.loads
    · rw [inflight]
      exact live.loads

theorem BufferSound.handed (step : WriterStep batchSize buffer.scope (buffer.scope.hand batch))
    (free : ∀ batch, buffer.scope.writer ≠ .writing batch) : BufferSound batchSize maxAge origin
      { buffer with scope := buffer.scope.hand batch, sink := .applying } := by
  have idle : buffer.sink = .idle := by
    cases sound.sink with
    | inl writing =>
      obtain ⟨other, writing⟩ := writing
      exact absurd writing (free other)
    | inr idle => exact idle
  have none_flying : buffer.inflight = [] := by
    rw [StorageBuffer.inflight, idle]
  refine ⟨reachable_batchStep sound.scope (.writer step), .inl ⟨batch, rfl⟩, nofun, sound.hot,
    ?_, fun unfailed => ?_⟩
  · exact fun get member => ⟨(sound.gets get member).past, (sound.gets get member).assigned,
      (sound.gets get member).own⟩
  · have live := sound.live unfailed
    have handed : buffer.scope.observed.handed = buffer.consumed := by
      rw [live.handed, none_flying, append_nil]
    refine ⟨?_, live.pending, ?_, live.resolved, ?_, ?_⟩
    · change buffer.scope.observed.handed ++ batch = buffer.consumed ++ batch
      rw [handed]
    · intro key
      refine .inl (live.store_of_absent ?_)
      rw [none_flying]
      exact not_mem_nil
    · intro get member
      have getLive := live.gets get member
      refine ⟨getLive.settled, getLive.seen, fun fill value loading hot begun _ => ?_⟩
      refine getLive.loads fill value loading hot begun ?_
      rw [none_flying]
      exact not_mem_nil
    · intro key token hot fill time value begun returned _
      refine live.loads key token hot fill time value begun returned ?_
      rw [none_flying]
      exact not_mem_nil

theorem BufferSound.stored {change : Entry Key} (writing : buffer.scope.writer = .writing batch)
    (applying : buffer.sink = .applying) (last : lastEntry key batch = some change) :
    BufferSound batchSize maxAge origin
      { buffer with store := update buffer.store key change.content } := by
  refine ⟨sound.scope, sound.sink, sound.busy, sound.hot, ?_, fun unfailed => ?_⟩
  · exact fun get member => ⟨(sound.gets get member).past, (sound.gets get member).assigned,
      (sound.gets get member).own⟩
  · have live := sound.live unfailed
    have flying : buffer.inflight = batch := by
      rw [StorageBuffer.inflight, applying, writing]
    refine ⟨live.handed, live.pending, ?_, live.resolved, ?_, live.loads⟩
    · intro other
      by_cases same : other = key
      case pos =>
        right
        change update buffer.store key change.content other = _
        rw [same, update_self, live.handed, flying, lastValue_append, last]
        rfl
      case neg =>
        change update buffer.store key change.content other = _ ∨
          update buffer.store key change.content other = _
        rw [update_of_ne same]
        exact live.store other
    · exact fun get member => ⟨(live.gets get member).settled, (live.gets get member).seen,
        (live.gets get member).loads⟩

theorem BufferSound.answered (reachable : (batchMachine Key batchSize).Reachable scope)
    (returned : buffer.sink = .returned failed)
    (observed : scope.observed.admitted = buffer.scope.observed.admitted ∧
      scope.observed.handed = buffer.scope.observed.handed)
    (settled : scope.settled = buffer.scope.settled) (acking : scope.writer = .acking batch) :
    BufferSound batchSize maxAge origin { buffer with scope := scope, sink := .idle } := by
  have none_flying : buffer.inflight = [] := by
    rw [StorageBuffer.inflight, returned]
  refine ⟨reachable, .inr rfl, fun _ other => by rw [acking]; nofun, sound.hot, ?_,
    fun unfailed => ?_⟩
  · exact fun get member => ⟨(sound.gets get member).past, (sound.gets get member).assigned,
      (sound.gets get member).own⟩
  · have live := sound.live unfailed
    refine ⟨?_, ?_, ?_, ?_, ?_, ?_⟩
    · rw [observed.2, live.handed, none_flying]
      rfl
    · rw [StorageBuffer.waiting, observed.1]
      exact live.pending
    · rw [observed.2]
      exact live.store
    · rw [settled]
      exact live.resolved
    · intro get member
      have getLive := live.gets get member
      refine ⟨getLive.settled, ?_, fun fill value loading hot begun _ => ?_⟩
      · rw [observed.1]
        exact getLive.seen
      · refine getLive.loads fill value loading hot begun ?_
        rw [none_flying]
        exact not_mem_nil
    · intro key token hot fill time value begun returned _
      refine live.loads key token hot fill time value begun returned ?_
      rw [none_flying]
      exact not_mem_nil

end

variable {hot : ReadSystem} {fresh : List ReadLabel}

theorem settle_keys_of_absent (absent : key ∉ batch.map Entry.key) :
    (buffer.settle batch).keys key = buffer.keys key := by
  change (lastEntry key batch).elim _ _ = _
  rw [lastEntry_eq_none_iff.mpr absent]
  rfl

theorem settle_pending_of_last (last : lastEntry key batch = some change) :
    ((buffer.settle batch).keys key).pending =
      (buffer.keys key).pending.filter fun pending => pending.id ≠ change.id := by
  change ((lastEntry key batch).elim _ _ : BufferKey Key).pending = _
  rw [last]
  change (buffer.released key _).pending = _
  rw [StorageBuffer.released]
  split
  case isTrue gone => exact gone.1.symm
  case isFalse => rfl

theorem settle_mutation_of_last (member : get ∈ buffer.gets)
    (last : lastEntry get.key batch = some change) :
    ((buffer.settle batch).keys get.key).mutation = (buffer.keys get.key).mutation + 1 := by
  change ((lastEntry get.key batch).elim _ _ : BufferKey Key).mutation = _
  rw [last]
  change (buffer.released get.key _).mutation = _
  rw [StorageBuffer.released, if_neg (fun gone => gone.2 get member rfl)]
  rfl

theorem exists_last (member : key ∈ batch.map Entry.key) :
    ∃ change, lastEntry key batch = some change := by
  cases last : lastEntry key batch with
  | none => exact absurd member (lastEntry_eq_none_iff.mp last)
  | some change => exact ⟨change, rfl⟩

theorem fills_of_run (run : (readMachine maxAge).Run hot fresh last) :
    ∀ id ∈ hot.fills.map Fill.id, id ∈ last.fills.map Fill.id := by
  induction run with
  | nil => exact fun _ => id
  | cons step _ ih =>
    have taken : ReadStep maxAge _ _ _ := step
    exact fun id member => ih id (taken.fills_mono id member)

theorem tokenOf_mem (distinct : (buffer.hotKeys.map Prod.fst).Nodup)
    (stored : (key, token) ∈ buffer.hotKeys) (member : key ∈ batch.map Entry.key) :
    token ∈ buffer.tokensOf batch := by
  rw [StorageBuffer.tokensOf, mem_filterMap]
  refine ⟨key, mem_dedup.mpr member, ?_⟩
  rw [StorageBuffer.tokenOf, rowAt_of_mem distinct stored]
  rfl

theorem GetSound.settle (sound : GetSound buffer get) (member : get ∈ buffer.gets)
    (run : (readMachine maxAge).Run buffer.hot fresh hot) {tokens : List String}
    (events : fresh.map ReadLabel.event = tokens.map (.invalidated 0)) :
    GetSound ((buffer.settle batch).cached hot fresh) get := by
  refine ⟨?_, sound.assigned, fun fill filling => ?_⟩
  · by_cases touched : get.key ∈ batch.map Entry.key
    case pos =>
      obtain ⟨change, last⟩ := exists_last touched
      change get.mutation ≤ ((buffer.settle batch).keys get.key).mutation
      rw [settle_mutation_of_last member last]
      exact Nat.le_succ_of_le sound.past
    case neg =>
      change get.mutation ≤ ((buffer.settle batch).keys get.key).mutation
      rw [settle_keys_of_absent touched]
      exact sound.past
  · obtain ⟨known, own⟩ := sound.own fill filling
    refine ⟨fills_of_run run fill known, fun label labelled owner token began => ?_⟩
    cases mem_append.mp labelled with
    | inl new =>
      have event := mem_map_of_mem (f := ReadLabel.event) (mem_reverse.mp new)
      rw [events, began] at event
      obtain ⟨_, _, impossible⟩ := mem_map.mp event
      cases impossible
    | inr earlier => exact own label earlier owner token began

theorem BufferLive.waiting_eq (live : BufferLive origin buffer)
    (scope : (batchMachine Key batchSize).Reachable buffer.scope)
    (flying : buffer.inflight = batch) : ∃ rest, buffer.waiting = batch ++ rest ∧
      buffer.scope.observed.admitted.drop (buffer.consumed ++ batch).length = rest := by
  obtain ⟨rest, split⟩ := live.inflight_prefix scope
  rw [flying] at split
  refine ⟨rest, split.symm, ?_⟩
  rw [live.order scope, ← split, ← append_assoc, drop_left]

theorem BufferLive.settle_pending (live : BufferLive origin buffer)
    (scope : (batchMachine Key batchSize).Reachable buffer.scope)
    (waiting : buffer.waiting = batch ++ rest) :
    ((buffer.settle batch).keys key).pending = lastEntry key rest := by
  by_cases touched : key ∈ batch.map Entry.key
  case neg =>
    rw [settle_keys_of_absent touched, live.pending, waiting, lastEntry_append,
      lastEntry_eq_none_iff.mpr touched, Option.or_none]
  case pos =>
    obtain ⟨change, last⟩ := exists_last touched
    rw [settle_pending_of_last last, live.pending, waiting, lastEntry_append, last]
    cases newer : lastEntry key rest with
    | none => rw [Option.none_or, Option.filter_some_neg (by simp)]
    | some entry =>
      rw [Option.some_or, Option.filter_some_pos]
      have distinct := (batchSound_of_reachable scope).admitted_distinct
      rw [live.order scope, waiting, map_append, map_append] at distinct
      have apart := (nodup_append.mp (nodup_append.mp distinct).2.1).2.2
      refine decide_eq_true fun same => ?_
      exact apart change.id (mem_map_of_mem (lastEntry_mem last).1) entry.id
        (mem_map_of_mem (lastEntry_mem newer).1) same.symm

section

variable (sound : BufferSound batchSize maxAge origin buffer)
include sound

theorem BufferSound.consumed
    (writing : buffer.scope.writer = .writing batch) (applying : buffer.sink = .applying)
    (stored : ∀ key change, lastEntry key batch = some change → buffer.store key = change.content)
    (run : (readMachine maxAge).Run buffer.hot fresh hot)
    (events : fresh.map ReadLabel.event = (buffer.tokensOf batch).map (.invalidated 0)) :
    BufferSound batchSize maxAge origin { (buffer.settle batch).cached hot fresh with
      sink := .returned false, consumed := buffer.consumed ++ batch } := by
  refine ⟨sound.scope, .inl ⟨batch, writing⟩, nofun, (sound.hot.invalidated run events).1, ?_,
    fun unfailed => ?_⟩
  · intro get member
    have settled : GetSound ((buffer.settle batch).cached hot fresh) get :=
      (sound.gets get member).settle member run events
    exact ⟨settled.past, settled.assigned, settled.own⟩
  · have live := sound.live unfailed
    have flying : buffer.inflight = batch := by
      rw [StorageBuffer.inflight, applying, writing]
    obtain ⟨rest, waiting, dropped⟩ := live.waiting_eq sound.scope flying
    have untouched {key : Key} {token : String} (hot : (key, token) ∈ buffer.hotKeys)
        {fill : Nat} (begun : Begun (fresh.reverse ++ buffer.labels) fill token) :
        key ∉ batch.map Entry.key ∧ Begun buffer.labels fill token := by
      obtain ⟨absent, begun⟩ := begun.of_invalidated events
      exact ⟨fun touched => absent (tokenOf_mem sound.hot.distinct hot touched), begun⟩
    refine ⟨?_, ?_, ?_, ?_, ?_, ?_⟩
    · change buffer.scope.observed.handed = buffer.consumed ++ batch ++ []
      rw [live.handed, flying, append_nil]
    · intro key
      change ((buffer.settle batch).keys key).pending =
        lastEntry key (buffer.scope.observed.admitted.drop (buffer.consumed ++ batch).length)
      rw [dropped]
      exact live.settle_pending sound.scope waiting
    · intro key
      left
      change buffer.store key = lastValue origin (buffer.consumed ++ batch) key
      by_cases touched : key ∈ batch.map Entry.key
      case pos =>
        obtain ⟨change, last⟩ := exists_last touched
        rw [stored key change last, lastValue_append, last]
        rfl
      case neg =>
        rw [lastValue_append_of_absent touched]
        exact live.store_of_absent (flying ▸ touched)
    · refine le_trans live.resolved ?_
      change buffer.consumed.length ≤ (buffer.consumed ++ batch).length
      rw [length_append]
      exact Nat.le_add_right _ _
    · intro get member
      have member : get ∈ buffer.gets := member
      have getLive := live.gets get member
      have still : ((buffer.settle batch).cached hot fresh).Unchanged get →
          get.key ∉ batch.map Entry.key ∧ buffer.Unchanged get := by
        intro unchanged
        change get.mutation = ((buffer.settle batch).keys get.key).mutation at unchanged
        by_cases touched : get.key ∈ batch.map Entry.key
        case pos =>
          obtain ⟨change, last⟩ := exists_last touched
          rw [settle_mutation_of_last member last] at unchanged
          have past := (sound.gets get member).past
          rw [unchanged] at past
          exact absurd past (Nat.not_succ_le_self _)
        case neg =>
          rw [settle_keys_of_absent touched] at unchanged
          exact ⟨touched, unchanged⟩
      refine ⟨fun waits unchanged => ?_, fun value seen unchanged => ?_,
        fun fill value loading hot begun _ => ?_⟩
      · obtain ⟨touched, unchanged⟩ := still unchanged
        change ((buffer.settle batch).keys get.key).pending = none
        rw [settle_keys_of_absent touched]
        exact getLive.settled waits unchanged
      · exact getLive.seen value seen (still unchanged).2
      · obtain ⟨touched, begun⟩ := untouched hot begun
        change value = lastValue origin (buffer.consumed ++ batch) get.key
        rw [lastValue_append_of_absent touched]
        exact getLive.loads fill value loading hot begun (flying ▸ touched)
    · intro key token hot fill time value begun returned _
      obtain ⟨touched, begun⟩ := untouched hot begun
      have earlier : ⟨time, .returned fill value⟩ ∈ buffer.labels := by
        cases mem_append.mp returned with
        | inl new =>
          have event := mem_map_of_mem (f := ReadLabel.event) (mem_reverse.mp new)
          rw [events] at event
          obtain ⟨_, _, impossible⟩ := mem_map.mp event
          cases impossible
        | inr earlier => exact earlier
      change value = lastValue origin (buffer.consumed ++ batch) key
      rw [lastValue_append_of_absent touched]
      exact live.loads key token hot fill time value begun earlier (flying ▸ touched)

theorem BufferSound.ended (reachable : (batchMachine Key batchSize).Reachable scope)
    (writing : scope.writer = .writing batch) (failed : buffer.failure = true)
    (run : (readMachine maxAge).Run buffer.hot fresh hot)
    (events : fresh.map ReadLabel.event = (buffer.tokensOf batch).map (.invalidated 0)) :
    BufferSound batchSize maxAge origin { (buffer.settle batch).cached hot fresh with
      scope := scope, sink := .returned true } := by
  refine ⟨reachable, .inl ⟨batch, writing⟩, nofun, (sound.hot.invalidated run events).1, ?_, ?_⟩
  · intro get member
    have settled : GetSound ((buffer.settle batch).cached hot fresh) get :=
      (sound.gets get member).settle member run events
    exact ⟨settled.past, settled.assigned, settled.own⟩
  · intro unfailed
    change buffer.failure = false at unfailed
    rw [failed] at unfailed
    cases unfailed

theorem BufferSound.fail : BufferSound batchSize maxAge origin buffer.fail := by
  rw [StorageBuffer.fail]
  split
  case isTrue => exact sound
  case isFalse =>
    have reachable := reachable_batchStep sound.scope (.close .askedAgain)
    refine ⟨reachable, sound.sink, sound.busy, sound.hot, ?_, nofun⟩
    exact fun get member => ⟨Nat.le_succ_of_le (sound.gets get member).past,
      (sound.gets get member).assigned, (sound.gets get member).own⟩

end

omit [DecidableEq Key] in
theorem fail_failure : buffer.fail.failure = true := by
  rw [StorageBuffer.fail]
  split
  case isTrue failed => exact failed
  case isFalse => rfl

theorem BufferSound.change (sound : BufferSound batchSize maxAge origin buffer)
    (step : ChangeStep batchSize maxAge buffer after) :
    BufferSound batchSize maxAge origin after := by
  cases step with
  | admission step same => exact sound.admission step same
  | admitted calling => exact sound.admitted calling
  | writer step same => exact sound.writer step same
  | handed step free => exact sound.handed step free
  | refused step free failed run events =>
    exact sound.ended (reachable_batchStep sound.scope (.writer step)) rfl failed run events
  | stored writing applying last => exact sound.stored writing applying last
  | consumed writing applying stored run events =>
    exact sound.consumed writing applying stored run events
  | @failed batch hot fresh writing applying run events =>
    have failing := sound.fail
    have hotSame : buffer.fail.hot = buffer.hot := by
      rw [StorageBuffer.fail]
      split <;> rfl
    have tokens : buffer.fail.tokensOf batch = buffer.tokensOf batch := by
      rw [StorageBuffer.fail]
      split <;> rfl
    have still : buffer.fail.scope.writer = .writing batch := by
      rw [StorageBuffer.fail]
      split
      case isTrue => exact writing
      case isFalse => exact writing
    exact failing.ended failing.scope still fail_failure (hotSame ▸ run) (tokens ▸ events)
  | confirmed writing returned =>
    exact sound.answered (reachable_batchStep sound.scope (.writer (.confirmed writing)))
      returned ⟨rfl, rfl⟩ rfl rfl
  | writeFailed writing returned =>
    exact sound.answered (reachable_batchStep sound.scope (.writer (.writeFailed writing)))
      returned ⟨rfl, rfl⟩ rfl rfl

end Linktools.Cache
