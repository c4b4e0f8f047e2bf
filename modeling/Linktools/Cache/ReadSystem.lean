import Linktools.Core.Value
import Linktools.Library.Checked
import Linktools.Library.Keyed
import Linktools.Library.Machine
import Mathlib.Data.Int.ConditionallyCompleteOrder
import Mathlib.Order.ConditionallyCompleteLattice.Basic

namespace Linktools.Cache

open Linktools.Core Library List

/-! One read cache over a borrowed tier: its bounded index of generations, and what it serves
and writes. -/

def hotKeyLimit : Nat := 128

abbrev Token := Nat

abbrev Bytes := List UInt8

/-- `None` for `invalidated_at` is below every time. -/
structure ReadGeneration where
  token : Token
  invalidatedAt : WithBot Time := ⊥
deriving DecidableEq

structure HotContent where
  captured : Time
  expires : Time
  present : UInt8
  token : Token
  value : Bytes

instance decidableNotAfter : DecidableLE (WithBot Time)
  | ⊥, _ => isTrue bot_le
  | (left : Time), ⊥ => isFalse (WithBot.not_coe_le_bot left)
  | (left : Time), (right : Time) => decidable_of_iff (left ≤ right) WithBot.coe_le_coe.symm

/-- The mutable part of a `StorageReadCache`, its index oldest entry first; `clearedAt` starts
below every time. -/
structure ReadView where
  generations : List (String × ReadGeneration) := []
  closed : Bool := false
  clearedAt : WithBot Time := ⊥
  distinct : (generations.map Prod.fst).Nodup := by exact nodup_nil

namespace ReadView

variable (view : ReadView) (key : String)

def current : Option ReadGeneration := (rowAt Prod.fst view.generations key).map Prod.snd

def index (generation : ReadGeneration) : ReadView :=
  { view with
    generations :=
      (view.generations.filter fun entry => entry.1 ≠ key) ++ [(key, generation)]
    distinct := by
      rw [map_append, map_singleton, ← concat_eq_append]
      apply List.Nodup.concat
      · intro member
        obtain ⟨entry, inside, same⟩ := mem_map.mp member
        exact of_decide_eq_true (mem_filter.mp inside).2 same
      · exact view.distinct.sublist (filter_sublist.map Prod.fst) }

/-- `popitem(last=False)`. -/
def evict : ReadView :=
  { view with
    generations := view.generations.tail
    clearedAt :=
      max view.clearedAt (view.generations.head?.elim ⊥ fun entry => entry.2.invalidatedAt)
    distinct := view.distinct.sublist ((tail_sublist _).map Prod.fst) }

def bounded : ReadView :=
  if hotKeyLimit < view.generations.length then view.evict else view

/-- `_generation`. -/
def generation (replace : Bool) (fresh : Token) (now : Time) :
    Except Raised (ReadGeneration × ReadView) := do
  refuse (view.closed = true) (.ai .storageClosed [])
  let generation :=
    if replace then ⟨fresh, now⟩ else (view.current key).getD ⟨fresh, ⊥⟩
  return (generation, (view.index key generation).bounded)

/-- `_decode`; bytes that no read cache has written are `none`. -/
def decode (maxAge : Time) (content : Option HotContent) (generation : ReadGeneration)
    (now : Time) : Option (Option Bytes) :=
  match content with
  | none => none
  | some content =>
    if ¬(content.captured ≤ now ∧ now < min content.expires (content.captured + maxAge)) ∨
        (content.present ≠ 0 ∧ content.present ≠ 1) ∨
        ((content.captured : WithBot Time) ≤ generation.invalidatedAt ∧
          content.token ≠ generation.token) ∨ ((content.captured : WithBot Time) ≤ view.clearedAt ∧
          content.token ≠ generation.token) then none
    else if content.present = 0 ∧ content.value ≠ [] then none
    else some (if content.present = 0 then none else some content.value)

/-- The part of `get` between the answer of the tier and the next load. -/
def serve (maxAge : Time) (content : Option HotContent) (generation : ReadGeneration)
    (now : Time) : Option (Option Bytes) :=
  if view.current key = some generation then view.decode maxAge content generation now else none

/-- A `get` that misses takes a new generation, if its own one is still current. -/
def retake (generation : ReadGeneration) (fresh : Token) (now : Time) :
    Except Raised (ReadGeneration × ReadView) :=
  if view.current key = some generation then view.generation key true fresh now
  else .ok (generation, view)

/-- The check of `_publish`, under the lock. -/
def Accepts (maxAge : Time) (generation : ReadGeneration) (captured now : Time) : Prop :=
  view.closed = false ∧ view.current key = some generation ∧
    captured ≤ now ∧ now < captured + maxAge

instance {maxAge : Time} {generation : ReadGeneration} {captured now : Time} :
    Decidable (view.Accepts key maxAge generation captured now) := by
  unfold Accepts
  infer_instance

/-- `invalidate`. -/
def invalidate (fresh : Token) (now : Time) : ReadView :=
  match view.generation key true fresh now with
  | .ok (_, after) => after
  | .error _ => view

/-- `clear`. -/
def clear (now : Time) : ReadView :=
  if view.closed then view else { closed := view.closed, clearedAt := now }

/-- `close`. -/
def close : ReadView := { closed := true, clearedAt := view.clearedAt }

/-- Content captured up to this time is not served to the key any more, its own token apart. -/
def barrier : WithBot Time := max view.clearedAt ((view.current key).elim ⊥ (·.invalidatedAt))

variable {view} {key} {generation found : ReadGeneration} {after : ReadView} {replace : Bool}
  {fresh : Token} {now : Time}

theorem current_eq_some : view.current key = some found ↔ (key, found) ∈ view.generations := by
  rw [current, Option.map_eq_some_iff]
  constructor
  · intro entry
    obtain ⟨⟨stored, generation⟩, row, same⟩ := entry
    cases same
    cases rowAt_key row
    exact rowAt_mem row
  · intro member
    exact ⟨(key, found), rowAt_of_mem view.distinct member, rfl⟩

theorem current_index : (view.index key generation).current other =
      if other = key then some generation else view.current other := by
  apply Option.ext
  intro found
  rw [current_eq_some]
  have member : (other, found) ∈ (view.index key generation).generations ↔
      ((other, found) ∈ view.generations ∧ other ≠ key) ∨ (other = key ∧ found = generation) := by
    simp [index]
  rw [member]
  split_ifs with same
  case pos => simp [same, eq_comm]
  case neg => simp [same, current_eq_some]

theorem current_of_evict (kept : view.evict.current key = some found) :
    view.current key = some found := by
  rw [current_eq_some] at kept ⊢
  exact mem_of_mem_tail kept

theorem barrier_le_evict : view.barrier key ≤ view.evict.barrier key := by
  apply max_le
  · exact le_max_of_le_left (le_max_left _ _)
  · cases current : view.current key with
    | none => exact bot_le
    | some found =>
      have member := current_eq_some.mp current
      cases index : view.generations with
      | nil =>
        rw [index] at member
        cases member
      | cons =>
        rw [index] at member
        cases mem_cons.mp member with
        | inl evicted =>
          apply le_max_of_le_left
          apply le_max_of_le_right
          rw [index, ← evicted]
          exact le_refl _
        | inr inside =>
          apply le_max_of_le_right
          have still : view.evict.current key = some found := by
            apply current_eq_some.mpr
            change (key, found) ∈ view.generations.tail
            rw [index]
            exact inside
          rw [still]

theorem current_of_bounded (kept : view.bounded.current key = some found) :
    view.current key = some found := by
  unfold bounded at kept
  split at kept
  case isTrue => exact current_of_evict kept
  case isFalse => exact kept

theorem barrier_le_bounded : view.barrier key ≤ view.bounded.barrier key := by
  unfold bounded
  split
  case isTrue => exact barrier_le_evict
  case isFalse => exact le_refl _

theorem closed_bounded : view.bounded.closed = view.closed := by
  unfold bounded
  split <;> rfl

theorem generation_eq_ok (taken : view.generation key replace fresh now = .ok (generation, after)) :
    view.closed = false ∧ generation = (if replace then ⟨fresh, now⟩
        else (view.current key).getD ⟨fresh, ⊥⟩) ∧ after = (view.index key generation).bounded := by
  rw [ReadView.generation, bind_eq_ok] at taken
  obtain ⟨_, opened, taken⟩ := taken
  cases taken
  exact ⟨Bool.eq_false_iff.mpr (refuse_eq_ok.mp opened), rfl, rfl⟩

theorem closed_of_generation (failed : view.generation key replace fresh now = .error raised) :
    view.closed = true := by
  by_contra opened
  rw [ReadView.generation, refuse_of_not opened] at failed
  cases failed

section

variable (taken : view.generation key replace fresh now = .ok (generation, after))
include taken

theorem closed_generation :
    view.closed = false ∧ after.closed = false := by
  obtain ⟨opened, _, indexed⟩ := generation_eq_ok taken
  rw [indexed, closed_bounded]
  exact ⟨opened, opened⟩

theorem current_of_generation (current : after.current other = some found) :
    if other = key then found = generation else view.current other = some found := by
  obtain ⟨_, _, indexed⟩ := generation_eq_ok taken
  rw [indexed] at current
  have before := current_of_bounded current
  rw [current_index] at before
  split_ifs at before ⊢
  case pos => exact (Option.some.inj before).symm
  case neg => exact before

end

theorem barrier_index : (view.index key generation).barrier other =
      max view.clearedAt (if other = key then generation.invalidatedAt
        else (view.current other).elim ⊥ (·.invalidatedAt)) := by
  unfold barrier
  rw [current_index]
  split_ifs <;> rfl

theorem barrier_generation (taken : view.generation key replace fresh now = .ok (generation, after))
    (kept : replace = true → other ≠ key) : view.barrier other ≤ after.barrier other := by
  obtain ⟨_, same, indexed⟩ := generation_eq_ok taken
  rw [indexed]
  refine le_trans ?_ barrier_le_bounded
  rw [barrier_index]
  split_ifs with own
  case pos =>
    have keeps : ¬replace = true := fun replaced => kept replaced own
    rw [same, if_neg keeps, own, barrier]
    cases view.current key <;> exact le_refl _
  case neg => exact le_refl _

theorem le_barrier_of_replaced
    (taken : view.generation key true fresh now = .ok (generation, after)) :
    now ≤ after.barrier key := by
  obtain ⟨_, same, indexed⟩ := generation_eq_ok taken
  rw [indexed]
  refine le_trans ?_ barrier_le_bounded
  rw [barrier_index, if_pos rfl, same]
  exact le_max_right _ _

theorem decode_eq_some (hit : view.decode maxAge content generation now = some value) :
    ∃ stored, content = some stored ∧ stored.captured ≤ now ∧ now < stored.captured + maxAge ∧
      (stored.token = generation.token ∨
        generation.invalidatedAt < stored.captured ∧ view.clearedAt < stored.captured) ∧
      value = if stored.present = 0 then none else some stored.value := by
  unfold decode at hit
  cases content with
  | none => cases hit
  | some stored =>
    simp only at hit
    split at hit
    case isTrue => cases hit
    case isFalse passed =>
      split at hit
      case isTrue => cases hit
      case isFalse =>
        rw [not_or, not_or, not_or, not_not] at passed
        obtain ⟨⟨captured, young⟩, _, own, cleared⟩ := passed
        refine ⟨stored, rfl, captured, (lt_min_iff.mp young).2, ?_, (Option.some.inj hit).symm⟩
        by_cases token : stored.token = generation.token
        case pos => exact .inl token
        case neg =>
          right
          exact ⟨not_le.mp fun old => own ⟨old, token⟩, not_le.mp fun old => cleared ⟨old, token⟩⟩

end ReadView

/-- The content that `_publish` writes. -/
def HotContent.of (maxAge : Time) (generation : ReadGeneration) (captured : Time)
    (value : Option Bytes) : HotContent where
  captured := captured
  expires := captured + maxAge
  present := if value.isSome then 1 else 0
  token := generation.token
  value := value.getD []

theorem HotContent.value_of {maxAge captured : Time} {generation : ReadGeneration}
    {value : Option Bytes} : (if (of maxAge generation captured value).present = 0 then none
      else some (of maxAge generation captured value).value) = value := by
  cases value <;> rfl

abbrev ViewId := Nat

/-- A generation with its draw of `uuid4`, and the key of the view that it was made for. -/
structure Draw where
  generation : ReadGeneration
  view : ViewId
  key : String

/-- A `get` that waits for the tier. -/
structure Reader where
  view : ViewId
  key : String
  generation : ReadGeneration
deriving DecidableEq

inductive FillStage
  | loading
  | loaded (value : Option Bytes)
  | finished

/-- A load, or a `put` with the value that it was given, on its way to the tier. -/
structure Fill where
  id : Nat
  view : ViewId
  key : String
  given : Option (Option Bytes)
  generation : ReadGeneration
  captured : Time
  stage : FillStage

inductive ReadEvent
  | asked (view : ViewId) (key : String)
  | served (view : ViewId) (key : String) (value : Option Bytes)
  | began (fill : Nat) (view : ViewId) (key : String)
  | returned (fill : Nat) (value : Option Bytes)
  | put (fill : Nat) (view : ViewId) (key : String) (value : Option Bytes) (captured : Time)
  | finished (fill : Nat)
  | invalidated (view : ViewId) (key : String)
  | cleared (view : ViewId)
  | closed (view : ViewId)
  | waited

structure ReadLabel where
  time : Time
  event : ReadEvent

/-- The operations that a value served to the key must be newer than. -/
def ReadEvent.supersedes (view : ViewId) (key : String) : ReadEvent → Prop
  | .put _ putView putKey _ _ => putView = view ∧ putKey = key
  | .invalidated gone goneKey => gone = view ∧ goneKey = key
  | .cleared gone => gone = view
  | _ => False

structure ReadSystem where
  clock : Time
  drawn : List Draw := []
  views : ViewId → ReadView := fun _ => {}
  readers : List Reader := []
  fills : List Fill := []
  written : List (String × HotContent) := []

namespace ReadSystem

variable (system : ReadSystem)

def turn (view : ViewId) (after : ReadView) (now : Time) : ReadSystem :=
  { system with clock := now, views := Function.update system.views view after }

def draw (generation : ReadGeneration) (view : ViewId) (key : String) : ReadSystem :=
  { system with drawn := ⟨generation, view, key⟩ :: system.drawn }

def Fresh (token : Token) : Prop := token ∉ system.drawn.map (·.generation.token)

instance {token : Token} : Decidable (system.Fresh token) := by
  unfold Fresh
  infer_instance

def begin (fill : Fill) : ReadSystem := { system with fills := fill :: system.fills }

def NewFill (id : Nat) : Prop := ∀ fill ∈ system.fills, fill.id ≠ id

def Answers (key : String) (content : Option HotContent) : Prop :=
  ∀ stored ∈ content, (key, stored) ∈ system.written

def replaceFill (fill : Fill) : ReadSystem :=
  { system with fills := rewriteAt (·.id) system.fills fill.id fill }

end ReadSystem

variable (maxAge : ViewId → Time)

section

variable (system : ReadSystem)

inductive ReadStep : ReadLabel → ReadSystem → Prop
  | asked {view : ViewId} {key : String} {token : Token} {now : Time} {generation : ReadGeneration}
      {after : ReadView} (later : system.clock ≤ now) (fresh : system.Fresh token)
      (taken : (system.views view).generation key false token now = .ok (generation, after)) :
      ReadStep ⟨now, .asked view key⟩
        { (system.turn view after now).draw ⟨token, ⊥⟩ view key with
          readers := ⟨view, key, generation⟩ :: system.readers }
  | served {reader : Reader} {content : Option HotContent}
      {value : Option Bytes} {now : Time} (later : system.clock ≤ now)
      (waiting : reader ∈ system.readers) (answers : system.Answers reader.key content)
      (hit : (system.views reader.view).serve reader.key (maxAge reader.view) content
        reader.generation now = some value) :
      ReadStep ⟨now, .served reader.view reader.key value⟩
        { system with clock := now, readers := system.readers.erase reader }
  | missed {reader : Reader} {content : Option HotContent} {token : Token}
      {decoded retaken now : Time} {id : Nat} {generation : ReadGeneration} {after : ReadView}
      (later : system.clock ≤ decoded ∧ decoded ≤ retaken ∧ retaken ≤ now)
      (waiting : reader ∈ system.readers) (answers : system.Answers reader.key content)
      (miss : (system.views reader.view).serve reader.key (maxAge reader.view) content
        reader.generation decoded = none) (fresh : system.Fresh token) (new : system.NewFill id)
      (taken : (system.views reader.view).retake reader.key reader.generation token retaken =
        .ok (generation, after)) : ReadStep ⟨now, .began id reader.view reader.key⟩
        { ((system.turn reader.view after now).draw ⟨token, retaken⟩ reader.view reader.key).begin
            ⟨id, reader.view, reader.key, none, generation, now, .loading⟩ with
          readers := system.readers.erase reader }
  | refreshed {view : ViewId} {key : String} {token : Token} {taken now : Time} {id : Nat}
      {generation : ReadGeneration} {after : ReadView} (later : system.clock ≤ taken ∧ taken ≤ now)
      (fresh : system.Fresh token) (new : system.NewFill id)
      (replaced : (system.views view).generation key true token taken = .ok (generation, after)) :
      ReadStep ⟨now, .began id view key⟩
        (((system.turn view after now).draw ⟨token, taken⟩ view key).begin
          ⟨id, view, key, none, generation, now, .loading⟩)
  | returned {fill : Fill} {value : Option Bytes} {now : Time}
      (later : system.clock ≤ now) (member : fill ∈ system.fills)
      (loading : fill.stage = .loading) : ReadStep ⟨now, .returned fill.id value⟩
        { system.replaceFill { fill with stage := .loaded value } with clock := now }
  | put {view : ViewId} {key : String} {value : Option Bytes} {captured : Time} {token : Token}
      {now : Time} {id : Nat} {generation : ReadGeneration} {after : ReadView}
      (later : system.clock ≤ now) (fresh : system.Fresh token) (new : system.NewFill id)
      (replaced : (system.views view).generation key true token now = .ok (generation, after)) :
      ReadStep ⟨now, .put id view key value captured⟩
        (((system.turn view after now).draw ⟨token, now⟩ view key).begin
          ⟨id, view, key, some value, generation, captured, .loaded value⟩)
  | published {fill : Fill} {value : Option Bytes} {now : Time} (later : system.clock ≤ now)
      (member : fill ∈ system.fills) (loaded : fill.stage = .loaded value)
      (accepted : (system.views fill.view).Accepts fill.key (maxAge fill.view)
        fill.generation fill.captured now) : ReadStep ⟨now, .finished fill.id⟩
        { system.replaceFill { fill with stage := .finished } with
          clock := now
          written := (fill.key, .of (maxAge fill.view) fill.generation fill.captured value) ::
            system.written }
  | discarded {fill : Fill} {value : Option Bytes} {now : Time} (later : system.clock ≤ now)
      (member : fill ∈ system.fills) (loaded : fill.stage = .loaded value)
      (refused : ¬(system.views fill.view).Accepts fill.key (maxAge fill.view)
        fill.generation fill.captured now) : ReadStep ⟨now, .finished fill.id⟩
        { system.replaceFill { fill with stage := .finished } with clock := now }
  | invalidated {view : ViewId} {key : String} {token : Token}
      {now : Time} (later : system.clock ≤ now) (fresh : system.Fresh token) :
      ReadStep ⟨now, .invalidated view key⟩
        ((system.turn view ((system.views view).invalidate key token now) now).draw
          ⟨token, now⟩ view key)
  | cleared {view : ViewId} {now : Time} (later : system.clock ≤ now) :
      ReadStep ⟨now, .cleared view⟩ (system.turn view ((system.views view).clear now) now)
  | closed {view : ViewId} {now : Time} (later : system.clock ≤ now) :
      ReadStep ⟨now, .closed view⟩ (system.turn view (system.views view).close now)
  | waited {now : Time} (later : system.clock ≤ now) :
      ReadStep ⟨now, .waited⟩ { system with clock := now }

end

def readMachine : Machine ReadSystem ReadLabel where
  initial system := ∃ clock, system = { clock := clock }
  step := ReadStep maxAge

end Linktools.Cache
