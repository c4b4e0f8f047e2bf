import Linktools.Cache.BatchAccounting
import Linktools.Cache.ReadFreshness

namespace Linktools.Cache

open Linktools.Core Library

/-! The final values that are to be written to a byte store, and what a reader sees of them:
changes go through a batch scope, reads through a read cache unless their key has a pending
change. The code between two awaits is one step. -/

variable {Key : Type} [DecidableEq Key]

def lastEntry (key : Key) (entries : List (Entry Key)) : Option (Entry Key) :=
  (entries.filter fun entry => entry.key = key).getLast?

def lastValue (origin : Key → Payload) (entries : List (Entry Key)) (key : Key) : Payload :=
  (lastEntry key entries).elim (origin key) Entry.content

/-- The state of a key; one that is not in the dictionary has the state of a new one. -/
structure BufferKey (Key : Type) where
  mutation : Nat := 0
  pending : Option (Entry Key) := none

/-- Where a `get` is: before a round, waiting for the tier, or for the store, whose answer it may
have seen, or for the tier to take the answer, or back with it. -/
inductive GetStage
  | starting
  | asking (generation : ReadGeneration)
  | loading (fill : Nat) (seen : Option Payload)
  | loaded (fill : Nat) (value : Payload)
  | answered (value : Payload)
  | reading (seen : Option Payload)
  | finished (value : Payload)

structure BufferGet (Key : Type) where
  id : Nat
  key : Key
  mutation : Nat := 0
  token : String := ""
  stage : GetStage := .starting

/-- The call of `_consume_batch` by the writer. -/
inductive Sink
  | idle
  | applying
  | returned (failed : Bool)

structure StorageBuffer (Key : Type) where
  scope : BatchScope Key
  hot : ReadSystem
  store : Key → Payload
  sink : Sink := .idle
  keys : Key → BufferKey Key := fun _ => {}
  hotKeys : List (Key × String) := []
  gets : List (BufferGet Key) := []
  flushes : List Nat := []
  failure : Bool := false
  consumed : List (Entry Key) := []
  assigned : List (Key × String) := []
  labels : List ReadLabel := []

namespace StorageBuffer

variable (buffer : StorageBuffer Key)

/-- `_release_key`. -/
def released (key : Key) (state : BufferKey Key) : BufferKey Key :=
  if state.pending = none ∧ ∀ get ∈ buffer.gets, get.key ≠ key then {} else state

/-- `admitted`, the callback of an admission. -/
def accept (entry : Entry Key) : StorageBuffer Key :=
  { buffer with
    scope := buffer.scope.admitted entry
    keys := Function.update buffer.keys entry.key
      ⟨(buffer.keys entry.key).mutation + 1, some entry⟩ }

/-- `_fail`. -/
def fail : StorageBuffer Key :=
  if buffer.failure then buffer
  else { buffer with
    failure := true
    scope := buffer.scope.stopAccepting
    keys := fun key => { buffer.keys key with mutation := (buffer.keys key).mutation + 1 } }

def latest (batch : List (Entry Key)) : List Key := (batch.map Entry.key).dedup

/-- What the end of a batch makes of a key whose last change it was. -/
def settleKey (change : Entry Key) (state : BufferKey Key) : BufferKey Key where
  mutation := state.mutation + 1
  pending := state.pending.filter fun pending => pending.id ≠ change.id

/-- The `finally` of `_consume_batch`, apart from the tokens that it invalidates. -/
def settle (batch : List (Entry Key)) : StorageBuffer Key :=
  { buffer with
    keys := fun key =>
      (lastEntry key batch).elim (buffer.keys key) fun change =>
        buffer.released key (settleKey change (buffer.keys key)) }

def tokenOf (key : Key) : Option String := (rowAt Prod.fst buffer.hotKeys key).map Prod.snd

def tokensOf (batch : List (Entry Key)) : List String := (latest batch).filterMap buffer.tokenOf

def indexed (key : Key) (token : String) : List (Key × String) :=
  (buffer.hotKeys.filter fun entry => entry.1 ≠ key) ++ [(key, token)]

def cached (hot : ReadSystem) (labels : List ReadLabel) : StorageBuffer Key :=
  { buffer with hot := hot, labels := labels.reverse ++ buffer.labels }

def setGet (get : BufferGet Key) : StorageBuffer Key :=
  { buffer with gets := rewriteAt (·.id) buffer.gets get.id get }

/-- Nothing has happened to the key since a round of the `get` began. -/
def Unchanged (get : BufferGet Key) : Prop := get.mutation = (buffer.keys get.key).mutation

instance {get : BufferGet Key} : Decidable (buffer.Unchanged get) :=
  inferInstanceAs (Decidable (_ = _))

def finish (get : BufferGet Key) (value : Payload) : StorageBuffer Key :=
  buffer.setGet { get with stage := if buffer.Unchanged get then .finished value else .starting }

/-- `_read_finished`, for a read that has ended or was cancelled. -/
def closeGet (get : BufferGet Key) : StorageBuffer Key :=
  let after := { buffer with gets := buffer.gets.filter fun other => other.id ≠ get.id }
  { after with
    keys := Function.update buffer.keys get.key (after.released get.key (buffer.keys get.key)) }

/-- A call of `flush`, up to its wait. -/
def flushCalled : StorageBuffer Key :=
  { buffer with
    scope := buffer.scope.requestFlush buffer.scope.accepted
    flushes := buffer.scope.accepted :: buffer.flushes }

end StorageBuffer

inductive BufferEvent (Key : Type)
  | read (id : Nat) (key : Key) (value : Payload)
  | flushed (target : Nat)
  | quiet

def StorageBuffer.observed (buffer : StorageBuffer Key) (get : BufferGet Key) (value : Payload) :
    BufferEvent Key :=
  if buffer.Unchanged get then .read get.id get.key value else .quiet

variable (batchSize : Nat) (maxAge : ViewId → Time)

section

variable (buffer : StorageBuffer Key)

/-- The steps of the writer and of the admissions.  The store answers a batch only when it holds
its changes; it may take them one after the other. -/
inductive ChangeStep : StorageBuffer Key → Prop
  | admission {scope : BatchScope Key}
      (step : AdmissionStep buffer.scope scope) (same : scope.observed = buffer.scope.observed) :
      ChangeStep { buffer with scope := scope }
  | admitted {entry : Entry Key}
      (calling : buffer.scope.admission = some { entry := entry, published := true }) :
      ChangeStep (buffer.accept entry)
  | writer {scope : BatchScope Key} (step : WriterStep batchSize buffer.scope scope)
      (same : ∀ batch, scope.writer = .writing batch ↔ buffer.scope.writer = .writing batch) :
      ChangeStep { buffer with scope := scope }
  | handed {batch : List (Entry Key)}
      (step : WriterStep batchSize buffer.scope (buffer.scope.hand batch))
      (free : ∀ batch, buffer.scope.writer ≠ .writing batch) (sound : buffer.failure = false) :
      ChangeStep { buffer with scope := buffer.scope.hand batch, sink := .applying }
  | refused {batch : List (Entry Key)} {hot : ReadSystem} {labels : List ReadLabel}
      (step : WriterStep batchSize buffer.scope (buffer.scope.hand batch))
      (free : ∀ batch, buffer.scope.writer ≠ .writing batch) (failed : buffer.failure = true)
      (run : (readMachine maxAge).Run buffer.hot labels hot)
      (events : labels.map ReadLabel.event = (buffer.tokensOf batch).map (.invalidated 0)) :
      ChangeStep { (buffer.settle batch).cached hot labels with
        scope := buffer.scope.hand batch, sink := .returned true }
  | stored {batch : List (Entry Key)} {key : Key}
      {change : Entry Key} (writing : buffer.scope.writer = .writing batch)
      (applying : buffer.sink = .applying) (last : lastEntry key batch = some change) :
      ChangeStep { buffer with store := Function.update buffer.store key change.content }
  | consumed {batch : List (Entry Key)} {hot : ReadSystem} {labels : List ReadLabel}
      (writing : buffer.scope.writer = .writing batch) (applying : buffer.sink = .applying)
      (stored : ∀ key change, lastEntry key batch = some change → buffer.store key = change.content)
      (run : (readMachine maxAge).Run buffer.hot labels hot)
      (events : labels.map ReadLabel.event = (buffer.tokensOf batch).map (.invalidated 0)) :
      ChangeStep { (buffer.settle batch).cached hot labels with
        sink := .returned false, consumed := buffer.consumed ++ batch }
  | failed {batch : List (Entry Key)} {hot : ReadSystem} {labels : List ReadLabel}
      (writing : buffer.scope.writer = .writing batch) (applying : buffer.sink = .applying)
      (run : (readMachine maxAge).Run buffer.hot labels hot)
      (events : labels.map ReadLabel.event = (buffer.tokensOf batch).map (.invalidated 0)) :
      ChangeStep { (buffer.fail.settle batch).cached hot labels with
        sink := .returned true }
  | confirmed {batch : List (Entry Key)}
      (writing : buffer.scope.writer = .writing batch) (returned : buffer.sink = .returned false) :
      ChangeStep { buffer with scope := buffer.scope.confirm batch, sink := .idle }
  | writeFailed {batch : List (Entry Key)} {code : String}
      (writing : buffer.scope.writer = .writing batch) (returned : buffer.sink = .returned true) :
      ChangeStep { buffer with
        scope := buffer.scope.writeFailed batch code, sink := .idle }

end

section

variable (buffer : StorageBuffer Key)

inductive GetStep : BufferEvent Key → StorageBuffer Key → Prop
  | called {id : Nat} {key : Key} (fresh : ∀ get ∈ buffer.gets, get.id ≠ id) :
      GetStep .quiet { buffer with gets := ⟨id, key, 0, "", .starting⟩ :: buffer.gets }
  | pending {get : BufferGet Key} {change : Entry Key}
      (member : get ∈ buffer.gets) (starting : get.stage = .starting)
      (sound : buffer.failure = false ∧ buffer.scope.backendFailure = false)
      (pending : (buffer.keys get.key).pending = some change) :
      GetStep (.read get.id get.key change.content)
        (buffer.setGet { get with stage := .finished change.content })
  | asked {get : BufferGet Key} {fresh token : String} {evicted : Option (Key × String)}
      {kept : List (Key × String)} {hot : ReadSystem} {labels : List ReadLabel}
      {generation : ReadGeneration} (member : get ∈ buffer.gets) (starting : get.stage = .starting)
      (sound : buffer.failure = false ∧ buffer.scope.backendFailure = false)
      (pending : (buffer.keys get.key).pending = none)
      (unused : fresh ∉ buffer.assigned.map Prod.snd)
      (tokenEq : token = (buffer.tokenOf get.key).getD fresh)
      (index : if hotKeyLimit < (buffer.indexed get.key token).length then
          buffer.indexed get.key token = evicted.toList ++ kept ∧ evicted.isSome = true
        else evicted = none ∧ kept = buffer.indexed get.key token)
      (run : (readMachine maxAge).Run buffer.hot labels hot) (events : labels.map ReadLabel.event =
        evicted.toList.map (.invalidated 0 ·.2) ++ [.asked 0 token])
      (reader : hot.readers = ⟨0, token, generation⟩ :: buffer.hot.readers) : GetStep .quiet
        { (buffer.cached hot labels).setGet { get with
            mutation := (buffer.keys get.key).mutation
            token := token
            stage := .asking generation } with
          hotKeys := kept, assigned := (get.key, token) :: buffer.assigned }
  | served {get : BufferGet Key} {generation : ReadGeneration} {now : Time} {value : Payload}
      {hot : ReadSystem} (member : get ∈ buffer.gets) (asking : get.stage = .asking generation)
      (step : ReadStep maxAge buffer.hot ⟨now, .served 0 get.token value⟩ hot)
      (reader : hot.readers = buffer.hot.readers.erase ⟨0, get.token, generation⟩) :
      GetStep (buffer.observed get value)
        ((buffer.cached hot [⟨now, .served 0 get.token value⟩]).finish get value)
  | missed {get : BufferGet Key} {generation : ReadGeneration} {now : Time} {fill : Nat}
      {hot : ReadSystem} (member : get ∈ buffer.gets) (asking : get.stage = .asking generation)
      (step : ReadStep maxAge buffer.hot ⟨now, .began fill 0 get.token⟩ hot)
      (reader : hot.readers = buffer.hot.readers.erase ⟨0, get.token, generation⟩) :
      GetStep .quiet ((buffer.cached hot [⟨now, .began fill 0 get.token⟩]).setGet
        { get with stage := .loading fill none })
  | looked {get : BufferGet Key} {fill : Nat}
      (member : get ∈ buffer.gets) (loading : get.stage = .loading fill none) :
      GetStep .quiet
        (buffer.setGet { get with stage := .loading fill (some (buffer.store get.key)) })
  | returned {get : BufferGet Key} {fill : Nat} {value : Payload} {now : Time} {hot : ReadSystem}
      (member : get ∈ buffer.gets) (loading : get.stage = .loading fill (some value))
      (step : ReadStep maxAge buffer.hot ⟨now, .returned fill value⟩ hot) :
      GetStep .quiet ((buffer.cached hot [⟨now, .returned fill value⟩]).setGet
        { get with stage := .loaded fill value })
  | published {get : BufferGet Key} {fill : Nat} {value : Payload} {now : Time} {hot : ReadSystem}
      (member : get ∈ buffer.gets) (loaded : get.stage = .loaded fill value)
      (step : ReadStep maxAge buffer.hot ⟨now, .finished fill⟩ hot) :
      GetStep .quiet ((buffer.cached hot [⟨now, .finished fill⟩]).setGet
        { get with stage := .answered value })
  | answered {get : BufferGet Key} {value : Payload}
      (member : get ∈ buffer.gets) (answered : get.stage = .answered value) :
      GetStep (buffer.observed get value) (buffer.finish get value)
  | sourced {get : BufferGet Key} (member : get ∈ buffer.gets)
      (starting : get.stage = .starting) (failed : buffer.failure = true) :
      GetStep .quiet (buffer.setGet { get with
        mutation := (buffer.keys get.key).mutation, stage := .reading none })
  | sourceLooked {get : BufferGet Key} (member : get ∈ buffer.gets)
      (reading : get.stage = .reading none) : GetStep .quiet
        (buffer.setGet { get with stage := .reading (some (buffer.store get.key)) })
  | sourceReturned {get : BufferGet Key} {value : Payload}
      (member : get ∈ buffer.gets) (reading : get.stage = .reading (some value)) :
      GetStep (buffer.observed get value) (buffer.finish get value)
  | closed {get : BufferGet Key} (member : get ∈ buffer.gets) :
      GetStep .quiet (buffer.closeGet get)

end

section

variable (buffer : StorageBuffer Key)

/-- `flush`, and what makes a buffer fail besides its sink. -/
inductive FlushStep : BufferEvent Key → StorageBuffer Key → Prop
  | called : FlushStep .quiet buffer.flushCalled
  | returned {target : Nat} (member : target ∈ buffer.flushes)
      (resolved : target ≤ buffer.scope.settled)
      (confirmed : buffer.scope.backendFailure = false ∧ buffer.scope.unconfirmed = 0)
      (sound : buffer.failure = false) :
      FlushStep (.flushed target) { buffer with flushes := buffer.flushes.erase target }
  | left {target : Nat} :
      FlushStep .quiet { buffer with flushes := buffer.flushes.erase target }
  | noticed (unknown : buffer.scope.backendFailure = true ∨ 0 < buffer.scope.unconfirmed) :
      FlushStep .quiet buffer.fail

end

inductive BufferStep : StorageBuffer Key → BufferEvent Key → StorageBuffer Key → Prop
  | change {buffer after : StorageBuffer Key} (step : ChangeStep batchSize maxAge buffer after) :
      BufferStep buffer .quiet after
  | get {buffer after : StorageBuffer Key} {event : BufferEvent Key}
      (step : GetStep maxAge buffer event after) : BufferStep buffer event after
  | flush {buffer after : StorageBuffer Key} {event : BufferEvent Key}
      (step : FlushStep buffer event after) : BufferStep buffer event after

/-- A buffer over a store with some content, read and written through this buffer only. -/
def bufferMachine (origin : Key → Payload) : Machine (StorageBuffer Key) (BufferEvent Key) where
  initial buffer := ∃ scheduled clock,
    buffer = { scope := { scheduled := scheduled }, hot := { clock := clock }, store := origin }
  step := BufferStep batchSize maxAge

open List

section LastEntries

variable {Key : Type} [DecidableEq Key] {key : Key} {left right : List (Entry Key)}
  {entry : Entry Key} {origin : Key → Payload}

theorem lastEntry_append :
    lastEntry key (left ++ right) = (lastEntry key right).or (lastEntry key left) := by
  rw [lastEntry, filter_append, getLast?_append, lastEntry, lastEntry]

theorem lastEntry_mem (last : lastEntry key left = some entry) :
    entry ∈ left ∧ entry.key = key := by
  have member := mem_filter.mp (mem_of_getLast? last)
  exact ⟨member.1, of_decide_eq_true member.2⟩

theorem lastEntry_eq_none_iff : lastEntry key left = none ↔ key ∉ left.map Entry.key := by
  rw [lastEntry, getLast?_eq_none_iff, filter_eq_nil_iff, mem_map]
  constructor
  · intro none found
    obtain ⟨entry, member, same⟩ := found
    exact none entry member (decide_eq_true same)
  · intro absent entry member same
    exact absent ⟨entry, member, of_decide_eq_true same⟩

theorem lastEntry_singleton :
    lastEntry key [entry] = if entry.key = key then some entry else none := by
  rw [lastEntry, filter_singleton]
  by_cases same : entry.key = key
  case pos =>
    rw [decide_eq_true same, if_pos same]
    rfl
  case neg =>
    rw [decide_eq_false same, if_neg same]
    rfl

theorem lastValue_append : lastValue origin (left ++ right) key =
      (lastEntry key right).elim (lastValue origin left key) Entry.content := by
  rw [lastValue, lastEntry_append]
  cases lastEntry key right <;> rfl

theorem lastValue_append_of_absent (absent : key ∉ right.map Entry.key) :
    lastValue origin (left ++ right) key = lastValue origin left key := by
  rw [lastValue_append, lastEntry_eq_none_iff.mpr absent]
  rfl

end LastEntries

variable {Key : Type} {maxAge : ViewId → Time} {key : Key} {hot after : ReadSystem}
  {label : ReadLabel} {labels fresh : List ReadLabel} {id : Nat}
  {token : String} {hotKeys assigned : List (Key × String)} {value : Payload}

/-- The load or the `put` that an event is about. -/
def ReadEvent.fill : ReadEvent → Option Nat
  | .began fill _ _ | .returned fill _ | .put fill _ _ _ _ | .finished fill => some fill
  | _ => none

theorem ids_replaceFill {earlier later : Fill} (same : later.id = earlier.id) :
    (rewriteAt Fill.id hot.fills earlier.id later).map Fill.id = hot.fills.map Fill.id :=
  map_key_rewriteAt same

theorem ReadStep.fills_mono (step : ReadStep maxAge hot label after) :
    ∀ id ∈ hot.fills.map Fill.id, id ∈ after.fills.map Fill.id := by
  intro id member
  cases step with
  | asked | served | invalidated | cleared | closed | waited => exact member
  | missed | refreshed | put => exact mem_cons_of_mem _ member
  | @returned earlier value =>
    exact (@ids_replaceFill hot earlier { earlier with stage := .loaded value } rfl).symm ▸ member
  | @published earlier | @discarded earlier =>
    exact (@ids_replaceFill hot earlier { earlier with stage := .finished } rfl).symm ▸ member

theorem ReadStep.fill_mem (step : ReadStep maxAge hot label after)
    (about : label.event.fill = some id) : id ∈ after.fills.map Fill.id := by
  have taken := step
  cases step with
  | asked | served | invalidated | cleared | closed | waited => cases about
  | missed | refreshed | put =>
    cases about
    exact mem_cons_self
  | returned _ member | published _ member | discarded _ member =>
    cases about
    exact ReadStep.fills_mono taken _ (mem_map_of_mem member)

variable {view : ViewId}

section

variable (step : ReadStep maxAge hot label after)
include step

theorem ReadStep.fill_new
    (began : label.event = .began id view token) : id ∉ hot.fills.map Fill.id := by
  intro member
  obtain ⟨fill, stored, same⟩ := mem_map.mp member
  cases step with
  | missed _ _ _ _ _ new | refreshed _ _ new =>
    cases began
    exact new fill stored same
  | asked | served | returned | put | published | discarded | invalidated | cleared | closed
  | waited => cases began

theorem ReadStep.readers_sub (unasked : ∀ view key, label.event ≠ .asked view key) :
    ∀ reader ∈ after.readers, reader ∈ hot.readers := by
  intro reader member
  cases step with
  | asked => exact absurd rfl (unasked _ _)
  | served | missed => exact mem_of_mem_erase member
  | refreshed | returned | put | published | discarded | invalidated | cleared | closed
  | waited => exact member

theorem ReadStep.readers_asked (asked : label.event = .asked view token) :
    ∃ generation, after.readers = ⟨view, token, generation⟩ :: hot.readers := by
  cases step with
  | asked =>
    cases asked
    exact ⟨_, rfl⟩
  | served | missed | refreshed | returned | put | published | discarded | invalidated | cleared
  | closed | waited => cases asked

end

structure HotSound (maxAge : ViewId → Time) (hot : ReadSystem) (labels : List ReadLabel)
    (hotKeys assigned : List (Key × String)) : Prop where
  history : HistorySound maxAge labels hot
  loaded : ∀ label ∈ labels, ∀ fill view key value captured,
    label.event ≠ .put fill view key value captured
  known : ∀ label ∈ labels, ∀ id, label.event.fill = some id → id ∈ hot.fills.map Fill.id
  began : ∀ label ∈ labels, ∀ fill view token, label.event = .began fill view token →
    token ∈ assigned.map Prod.snd
  distinct : (hotKeys.map Prod.fst).Nodup
  indexed : ∀ entry ∈ hotKeys, entry ∈ assigned
  owner : ∀ left right token, (left, token) ∈ assigned → (right, token) ∈ assigned → left = right
  readers : ∀ reader ∈ hot.readers, reader.view = 0 ∧
    ((hot.views 0).current reader.key = some reader.generation → ∃ key, (key, reader.key) ∈ hotKeys)

namespace HotSound

section

variable (sound : HotSound maxAge hot labels hotKeys assigned)
include sound

theorem step
    (step : ReadStep maxAge hot label after) (unasked : ∀ view key, label.event ≠ .asked view key)
    (loads : ∀ fill view key value captured, label.event ≠ .put fill view key value captured)
    (began : ∀ fill view token, label.event = .began fill view token →
      token ∈ assigned.map Prod.snd) :
    HotSound maxAge after (label :: labels) hotKeys assigned where
  history := sound.history.step step
  loaded other member := by
    cases mem_cons.mp member with
    | inl same => exact same ▸ loads
    | inr earlier => exact sound.loaded other earlier
  known other member id about := by
    cases mem_cons.mp member with
    | inl same => exact step.fill_mem (same ▸ about)
    | inr earlier => exact step.fills_mono id (sound.known other earlier id about)
  began other member := by
    cases mem_cons.mp member with
    | inl same => exact same ▸ began
    | inr earlier => exact sound.began other earlier
  distinct := sound.distinct
  indexed := sound.indexed
  owner := sound.owner
  readers reader member := by
    have waiting := step.readers_sub unasked reader member
    obtain ⟨view, known⟩ := sound.readers reader waiting
    refine ⟨view, fun current => ?_⟩
    have drawn := sound.history.readers reader waiting
    rw [view] at drawn
    exact known (sound.history.current_of_moved (moved_of_step step) drawn current).1

/-- The invalidation of some tokens, after which no reader of theirs is served. -/
theorem invalidated {tokens : List String} (run : (readMachine maxAge).Run hot fresh after)
    (events : fresh.map ReadLabel.event = tokens.map (.invalidated 0)) :
    HotSound maxAge after (fresh.reverse ++ labels) hotKeys assigned ∧ after.readers = hot.readers ∧
        ∀ reader ∈ hot.readers, (after.views 0).current reader.key = some reader.generation →
          (hot.views 0).current reader.key = some reader.generation ∧ reader.key ∉ tokens := by
  induction run generalizing labels tokens with
  | nil =>
    cases tokens with
    | nil => exact ⟨sound, rfl, fun _ _ current => ⟨current, not_mem_nil⟩⟩
    | cons => cases events
  | @cons first middle last label rest step run ih =>
    cases tokens with
    | nil => cases events
    | cons =>
      obtain ⟨here, later⟩ := List.cons.inj events
      have taken : ReadStep maxAge first label middle := step
      have next : HotSound maxAge middle (label :: labels) hotKeys assigned :=
        sound.step taken (by rw [here]; nofun) (by rw [here]; nofun) (by rw [here]; nofun)
      obtain ⟨final, readers, gone⟩ := ih next later
      have same : middle.readers = first.readers := by
        cases taken with
        | invalidated => rfl
        | asked | served | missed | refreshed | returned | put | published | discarded
        | cleared | closed | waited => cases here
      rw [reverse_cons, append_assoc]
      refine ⟨final, readers.trans same, ?_⟩
      intro reader member current
      obtain ⟨between, absent⟩ := gone reader (same ▸ member) current
      have drawn := sound.history.readers reader member
      rw [(sound.readers reader member).1] at drawn
      obtain ⟨before, kept⟩ := sound.history.current_of_moved (moved_of_step taken) drawn between
      refine ⟨before, fun own => ?_⟩
      cases mem_cons.mp own with
      | inl own =>
        rw [here] at kept
        exact kept ⟨rfl, own.symm⟩
      | inr own => exact absent own

end

end HotSound

def Begun (labels : List ReadLabel) (id : Nat) (token : String) : Prop :=
  ∃ owner captured, Since (fun label => ¬label.event.supersedes 0 token)
    (fun label => label = ⟨captured, .began id owner token⟩) labels

theorem Begun.of_cons (begun : Begun (label :: labels) id token) :
    (∃ owner, label.event = .began id owner token) ∨
      ¬label.event.supersedes 0 token ∧ Begun labels id token := by
  obtain ⟨owner, captured, since⟩ := begun
  cases since with
  | inl same => exact .inl ⟨owner, by rw [same]⟩
  | inr since => exact .inr ⟨since.1, owner, captured, since.2⟩

theorem Begun.of_invalidated {tokens : List String}
    (events : fresh.map ReadLabel.event = tokens.map (.invalidated 0))
    (begun : Begun (fresh.reverse ++ labels) id token) :
    token ∉ tokens ∧ Begun labels id token := by
  induction fresh generalizing labels tokens with
  | nil =>
    cases tokens with
    | nil => exact ⟨not_mem_nil, begun⟩
    | cons => cases events
  | cons label rest ih =>
    cases tokens with
    | nil => cases events
    | cons =>
      obtain ⟨here, later⟩ := List.cons.inj events
      rw [reverse_cons, append_assoc] at begun
      obtain ⟨absent, begun⟩ := ih later begun
      cases begun.of_cons with
      | inl began =>
        obtain ⟨owner, began⟩ := began
        rw [here] at began
        cases began
      | inr kept =>
        rw [here] at kept
        refine ⟨fun member => ?_, kept.2⟩
        cases mem_cons.mp member with
        | inl same => exact kept.1 ⟨rfl, same.symm⟩
        | inr member => exact absent member

theorem Begun.exists_mem (begun : Begun labels id token) :
    ∃ label ∈ labels, ∃ owner, label.event = .began id owner token := by
  obtain ⟨owner, captured, since⟩ := begun
  obtain ⟨label, member, same⟩ := since.exists_mem
  exact ⟨label, member, owner, by rw [same]⟩

namespace HotSound

variable {now : Time} {evicted : Option (Key × String)} {kept : List (Key × String)}

section

variable (sound : HotSound maxAge hot labels hotKeys assigned)
include sound

theorem served (step : ReadStep maxAge hot ⟨now, .served 0 token value⟩ after) :
    (∃ key, (key, token) ∈ hotKeys) ∧
      ∃ id time, Begun labels id token ∧ ⟨time, .returned id value⟩ ∈ labels := by
  generalize served : (⟨now, .served 0 token value⟩ : ReadLabel) = label at step
  cases step with
  | @served reader content value now later waiting answers hit =>
    obtain ⟨view, known⟩ := sound.readers reader waiting
    obtain ⟨_, same, rfl⟩ := ReadEvent.served.inj (ReadLabel.mk.inj served).2
    subst same
    rw [view] at hit
    have current : (hot.views 0).current reader.key = some reader.generation := by
      unfold ReadView.serve at hit
      split at hit
      case isTrue current => exact current
      case isFalse => cases hit
    refine ⟨known current, ?_⟩
    obtain ⟨fill, own, _, _, has, started, since⟩ := sound.history.exists_of_hit answers hit
    cases fresh_of_known own has started since with
    | loaded id owner time since returned => exact ⟨id, time, ⟨owner, _, since⟩, returned⟩
    | put id since =>
      obtain ⟨label, member, put⟩ := since.exists_mem
      exact absurd put (sound.loaded label member _ _ _ _ _)
    | putElsewhere id owner time elsewhere given =>
      exact absurd rfl (sound.loaded _ given _ _ _ _ _)
  | asked | missed | refreshed | returned | put | published | discarded | invalidated | cleared
  | closed | waited => cases served

/-- A question for the token of a key, which may push the token of another key out. -/
theorem asked (run : (readMachine maxAge).Run hot fresh after) (events : fresh.map ReadLabel.event =
      evicted.toList.map (.invalidated 0 ·.2) ++ [.asked 0 token])
    (distinct : (kept.map Prod.fst).Nodup) (known : ∀ entry ∈ kept, entry ∈
    (key, token) :: assigned) (here : (key, token) ∈ kept)
    (others : ∀ entry ∈ hotKeys, entry ∈ evicted.toList ++ kept)
    (owner : ∀ other, (other, token) ∈ assigned → other = key) :
    HotSound maxAge after (fresh.reverse ++ labels) kept ((key, token) :: assigned) := by
  obtain ⟨earlier, latest, rfl, invalidated, asked⟩ := map_eq_append_iff.mp events
  obtain ⟨label, rfl, question⟩ := map_eq_singleton_iff.mp asked
  obtain ⟨middle, toMiddle, fromMiddle⟩ := run.of_append
  obtain ⟨_, step, final⟩ := fromMiddle.of_cons
  cases final
  have tokens : earlier.map ReadLabel.event =
      (evicted.toList.map Prod.snd).map (.invalidated 0) := by
    rw [map_map]
    exact invalidated
  obtain ⟨between, readers, gone⟩ := sound.invalidated toMiddle tokens
  have taken : ReadStep maxAge middle label after := step
  rw [reverse_append, append_assoc]
  refine ⟨between.history.step taken, ?_, ?_, ?_, distinct, known, ?_, ?_⟩
  · intro other member
    cases mem_cons.mp member with
    | inl same =>
      rw [same, question]
      nofun
    | inr earlier => exact between.loaded other earlier
  · intro other member id about
    cases mem_cons.mp member with
    | inl same =>
      rw [same, question] at about
      cases about
    | inr earlier => exact taken.fills_mono id (between.known other earlier id about)
  · intro other member fill view name began
    cases mem_cons.mp member with
    | inl same =>
      rw [same, question] at began
      cases began
    | inr earlier => exact mem_cons_of_mem _ (between.began other earlier fill view name began)
  · intro left right name leftOwns rightOwns
    cases mem_cons.mp leftOwns with
    | inl leftSame =>
      cases leftSame
      cases mem_cons.mp rightOwns with
      | inl rightSame =>
        cases rightSame
        rfl
      | inr rightOwns => exact (owner right rightOwns).symm
    | inr leftOwns =>
      cases mem_cons.mp rightOwns with
      | inl rightSame =>
        cases rightSame
        exact owner left leftOwns
      | inr rightOwns => exact sound.owner left right name leftOwns rightOwns
  · intro reader member
    obtain ⟨generation, asked⟩ := taken.readers_asked question
    rw [asked, mem_cons] at member
    cases member with
    | inl new =>
      rw [new]
      exact ⟨rfl, fun _ => ⟨key, here⟩⟩
    | inr waiting =>
      rw [readers] at waiting
      obtain ⟨view, before⟩ := sound.readers reader waiting
      refine ⟨view, fun current => ?_⟩
      have drawn := between.history.readers reader (readers.symm ▸ waiting)
      rw [view] at drawn
      have kept := (between.history.current_of_moved (moved_of_step taken) drawn current).1
      obtain ⟨current, remaining⟩ := gone reader waiting kept
      obtain ⟨owner, stored⟩ := before current
      refine ⟨owner, ?_⟩
      cases mem_append.mp (others _ stored) with
      | inl pushed => exact absurd (mem_map_of_mem pushed) remaining
      | inr stays => exact stays

end

end HotSound

end Linktools.Cache
