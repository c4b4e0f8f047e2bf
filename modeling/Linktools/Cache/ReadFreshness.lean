import Linktools.Cache.ReadSystem

namespace Linktools.Cache

open Linktools.Core Library Function List

/-! What every step of the read caches does to the generations: a key gets a fresh one or keeps
its own. -/

variable {maxAge : ViewId → Time} {system after : ReadSystem} {label : ReadLabel}
  {view other : ViewId} {key : String} {now : Time}

structure Moved (system : ReadSystem) (label : ReadLabel) (after : ReadSystem) : Prop where
  later : system.clock ≤ label.time
  clock : after.clock = label.time
  drawn : ∀ draw ∈ system.drawn, draw ∈ after.drawn
  distinct : (system.drawn.map (·.generation.token)).Nodup →
    (after.drawn.map (·.generation.token)).Nodup
  current : ∀ view key generation, (after.views view).current key = some generation →
    ((system.views view).current key = some generation ∧
      ((system.views view).closed = false → ¬label.event.supersedes view key)) ∨
      (system.Fresh generation.token ∧ ⟨generation, view, key⟩ ∈ after.drawn)
  closed : ∀ view, (after.views view).closed = true → (after.views view).generations = [] ∨
      (system.views view).closed = true ∧ after.views view = system.views view
  barrier : ∀ view key, (after.views view).closed = false → (system.views view).closed = false ∧
      ((system.views view).barrier key ≤ (after.views view).barrier key ∨
        system.clock ≤ (after.views view).barrier key) ∧
      (label.event.supersedes view key → label.time ≤ (after.views view).barrier key)

theorem Moved.of_same_views (later : system.clock ≤ label.time) (clock : after.clock = label.time)
    (drawn : after.drawn = system.drawn ∨ ∃ draw : Draw,
      system.Fresh draw.generation.token ∧ after.drawn = draw :: system.drawn)
    (views : after.views = system.views)
    (keeps : ∀ view key, label.event.supersedes view key → (system.views view).closed = true) :
    Moved system label after where
  later := later
  clock := clock
  drawn draw member := by
    cases drawn with
    | inl same => exact same ▸ member
    | inr new =>
      obtain ⟨_, _, new⟩ := new
      exact new ▸ mem_cons_of_mem _ member
  distinct distinct := by
    cases drawn with
    | inl same => exact same ▸ distinct
    | inr new =>
      obtain ⟨_, fresh, new⟩ := new
      rw [new, map_cons, nodup_cons]
      exact ⟨fresh, distinct⟩
  current view key generation current := by
    rw [views] at current
    refine .inl ⟨current, fun opened gone => ?_⟩
    rw [keeps view key gone] at opened
    cases opened
  closed view closed := by
    rw [views] at closed ⊢
    exact .inr ⟨closed, rfl⟩
  barrier view key opened := by
    rw [views] at opened ⊢
    refine ⟨opened, .inl (le_refl _), fun gone => ?_⟩
    rw [keeps view key gone] at opened
    cases opened

variable {generation : ReadGeneration}

theorem Moved.of_turn (later : system.clock ≤ label.time) (clock : after.clock = label.time)
    (drawn : after.drawn = ⟨generation, view, key⟩ :: system.drawn)
    (views : after.views = update system.views view turned)
    (fresh : system.Fresh generation.token)
    (elsewhere : ∀ other key, other ≠ view → ¬label.event.supersedes other key)
    (current : ∀ other found, turned.current other = some found →
      ((system.views view).current other = some found ∧
        ((system.views view).closed = false → ¬label.event.supersedes view other)) ∨ found =
        generation ∧ other = key)
    (closed : turned.closed = true → (system.views view).closed = true ∧ turned = system.views view)
    (barrier : turned.closed = false → ∀ other, (system.views view).closed = false ∧
      ((system.views view).barrier other ≤ turned.barrier other ∨
        system.clock ≤ turned.barrier other) ∧
      (label.event.supersedes view other → label.time ≤ turned.barrier other)) :
    Moved system label after where
  later := later
  clock := clock
  drawn draw member := by rw [drawn]; exact mem_cons_of_mem _ member
  distinct distinct := by
    rw [drawn, map_cons, nodup_cons]
    exact ⟨fresh, distinct⟩
  current other otherKey found present := by
    rw [views, update_apply] at present
    split at present
    case isTrue same =>
      subst same
      cases current otherKey found present with
      | inl kept => exact .inl kept
      | inr new =>
        right
        rw [new.1, new.2, drawn]
        exact ⟨fresh, mem_cons_self⟩
    case isFalse different => exact .inl ⟨present, fun _ => elsewhere other otherKey different⟩
  closed other gone := by
    rw [views, update_apply] at gone ⊢
    split at gone
    case isTrue same =>
      subst same
      rw [if_pos rfl]
      exact .inr (closed gone)
    case isFalse different =>
      rw [if_neg different]
      exact .inr ⟨gone, rfl⟩
  barrier other otherKey opened := by
    rw [views, update_apply] at opened ⊢
    split at opened
    case isTrue same =>
      subst same
      rw [if_pos rfl]
      exact barrier opened otherKey
    case isFalse different =>
      rw [if_neg different]
      exact ⟨opened, .inl (le_refl _),
        fun supersedes => absurd supersedes (elsewhere other otherKey different)⟩

/-- A view that takes a generation: a new one only for the key, and then the key is the only
one that may be superseded. -/
theorem Moved.of_generation (made : ReadGeneration) {replace : Bool} {token : Token} {taken : Time}
    (later : system.clock ≤ taken) (latest : taken ≤ label.time) (clock : after.clock = label.time)
    (drawn : after.drawn = ⟨made, view, key⟩ :: system.drawn)
    (made_eq : made = if replace then ⟨token, taken⟩ else ⟨token, ⊥⟩)
    (views : after.views = update system.views view turned) (fresh : system.Fresh token)
    (taken_eq : (system.views view).generation key replace token taken = .ok (generation, turned))
    (supersedes : ∀ other otherKey, label.event.supersedes other otherKey →
      replace = true ∧ other = view ∧ otherKey = key ∧ taken = label.time) :
    Moved system label after := by
  have opened := ReadView.closed_generation taken_eq
  obtain ⟨_, same, _⟩ := ReadView.generation_eq_ok taken_eq
  have token_made : made.token = token := by
    rw [made_eq]
    split <;> rfl
  apply Moved.of_turn (later.trans latest) clock drawn views (token_made ▸ fresh)
  case elsewhere =>
    intro other otherKey different gone
    exact different (supersedes other otherKey gone).2.1
  case current =>
    intro other found current
    have before := ReadView.current_of_generation taken_eq current
    split_ifs at before with own
    case neg =>
      left
      exact ⟨before, fun _ gone => own (supersedes view other gone).2.2.1⟩
    case pos =>
      cases replace with
      | true =>
        right
        rw [before, same, made_eq]
        exact ⟨rfl, own⟩
      | false =>
        cases earlier : (system.views view).current key with
        | none =>
          right
          rw [before, same, made_eq, earlier]
          exact ⟨rfl, own⟩
        | some kept =>
          left
          rw [own, before, same, earlier]
          exact ⟨rfl, fun _ gone => absurd (supersedes view key gone).1 (by decide)⟩
  case closed =>
    intro closed
    rw [opened.2] at closed
    cases closed
  case barrier =>
    intro _ other
    refine ⟨opened.1, ?_, ?_⟩
    · by_cases replaced : replace = true ∧ other = key
      case pos =>
        right
        obtain ⟨replaced, own⟩ := replaced
        subst replaced own
        exact (WithBot.coe_le_coe.mpr later).trans (ReadView.le_barrier_of_replaced taken_eq)
      case neg =>
        left
        exact ReadView.barrier_generation taken_eq fun replacing own => replaced ⟨replacing, own⟩
    · intro gone
      obtain ⟨replaced, _, own, atOnce⟩ := supersedes view other gone
      subst replaced own
      rw [← atOnce]
      exact ReadView.le_barrier_of_replaced taken_eq

theorem Moved.of_emptied (turned : ReadView) (later : system.clock ≤ label.time)
    (after_eq : after = system.turn view turned label.time) (empty : turned.generations = [])
    (elsewhere : ∀ other key, other ≠ view → ¬label.event.supersedes other key)
    (barrier : turned.closed = false →
      (system.views view).closed = false ∧ turned.clearedAt = label.time) :
    Moved system label after := by
  subst after_eq
  have views : (system.turn view turned label.time).views =
      update system.views view turned := rfl
  have none (key : String) : turned.current key = none := by
    rw [ReadView.current, empty]
    rfl
  have raised (opened : turned.closed = false) (key : String) :
      label.time ≤ turned.barrier key := by
    rw [ReadView.barrier, (barrier opened).2]
    exact le_max_left _ _
  constructor
  case later => exact later
  case clock => rfl
  case drawn => exact fun draw member => member
  case distinct => exact id
  case current =>
    intro other otherKey found present
    rw [views, update_apply] at present
    split at present
    case isTrue same =>
      rw [none] at present
      cases present
    case isFalse different => exact .inl ⟨present, fun _ => elsewhere other otherKey different⟩
  case closed =>
    intro other gone
    rw [views, update_apply] at gone ⊢
    split at gone
    case isTrue same =>
      rw [if_pos same]
      exact .inl empty
    case isFalse different =>
      rw [if_neg different]
      exact .inr ⟨gone, rfl⟩
  case barrier =>
    intro other otherKey opened
    rw [views, update_apply] at opened ⊢
    split at opened
    case isTrue same =>
      subst same
      rw [if_pos rfl]
      exact ⟨(barrier opened).1,
        .inr ((WithBot.coe_le_coe.mpr later).trans (raised opened otherKey)),
        fun _ => raised opened otherKey⟩
    case isFalse different =>
      rw [if_neg different]
      exact ⟨opened, .inl (le_refl _),
        fun supersedes => absurd supersedes (elsewhere other otherKey different)⟩

theorem moved_of_step (step : ReadStep maxAge system label after) : Moved system label after := by
  cases step with
  | asked later fresh taken =>
    exact .of_generation ⟨_, ⊥⟩ later (le_refl _) rfl rfl rfl rfl fresh taken (by rintro _ _ ⟨⟩)
  | served later => exact .of_same_views later rfl (.inl rfl) rfl (by rintro _ _ ⟨⟩)
  | missed later waiting answers miss fresh new taken =>
    unfold ReadView.retake at taken
    split at taken
    case isTrue =>
      exact .of_generation ⟨_, _⟩ (later.1.trans later.2.1) later.2.2 rfl rfl rfl rfl fresh
        taken (by rintro _ _ ⟨⟩)
    case isFalse =>
      cases taken
      exact .of_same_views (later.1.trans (later.2.1.trans later.2.2)) rfl
        (.inr ⟨_, fresh, rfl⟩) (update_eq_self _ _) (by rintro _ _ ⟨⟩)
  | refreshed later fresh new replaced =>
    exact .of_generation ⟨_, _⟩ later.1 later.2 rfl rfl rfl rfl fresh replaced (by rintro _ _ ⟨⟩)
  | returned later => exact .of_same_views later rfl (.inl rfl) rfl (by rintro _ _ ⟨⟩)
  | put later fresh new replaced =>
    apply Moved.of_generation ⟨_, _⟩ later (le_refl _) rfl rfl rfl rfl fresh replaced
    intro other otherKey gone
    exact ⟨rfl, gone.1.symm, gone.2.symm, rfl⟩
  | published later => exact .of_same_views later rfl (.inl rfl) rfl (by rintro _ _ ⟨⟩)
  | discarded later => exact .of_same_views later rfl (.inl rfl) rfl (by rintro _ _ ⟨⟩)
  | @invalidated view key token now later fresh =>
    cases taken : (system.views view).generation key true token now with
    | ok result =>
      apply Moved.of_generation ⟨token, now⟩ later (le_refl _) rfl rfl rfl ?_ fresh taken
      · intro other otherKey gone
        exact ⟨rfl, gone.1.symm, gone.2.symm, rfl⟩
      · simp only [ReadSystem.draw, ReadSystem.turn, ReadView.invalidate, taken]
    | error raised =>
      apply Moved.of_same_views later rfl (.inr ⟨_, fresh, rfl⟩)
      · simp only [ReadSystem.draw, ReadSystem.turn, ReadView.invalidate, taken,
          update_eq_self]
      · intro other otherKey gone
        rw [← gone.1]
        exact ReadView.closed_of_generation taken
  | @cleared view now later =>
    by_cases closed : (system.views view).closed = true
    case pos =>
      refine .of_same_views later ?_ ?_ ?_ ?_
      · rfl
      · exact .inl rfl
      · simp only [ReadSystem.turn, ReadView.clear, if_pos closed, update_eq_self]
      · intro other key gone
        rw [← show view = other from gone]
        exact closed
    case neg =>
      apply Moved.of_emptied ((system.views view).clear now) later rfl
      · rw [ReadView.clear, if_neg closed]
      · intro other key different gone
        exact different gone.symm
      · intro _
        rw [ReadView.clear, if_neg closed]
        exact ⟨Bool.eq_false_iff.mpr closed, rfl⟩
  | @closed view now later =>
    apply Moved.of_emptied (system.views view).close later rfl rfl
    · exact fun _ _ _ gone => gone
    · intro opened
      cases opened
  | waited later => exact .of_same_views later rfl (.inl rfl) rfl (by rintro _ _ ⟨⟩)

variable {history : List ReadLabel} {fill : Fill}

/-- The event that begins a load, or the `put`. -/
def Fill.origin (fill : Fill) : ReadEvent :=
  match fill.given with
  | none => .began fill.id fill.view fill.key
  | some value => .put fill.id fill.view fill.key value fill.captured

def Fill.Starts (fill : Fill) (label : ReadLabel) : Prop :=
  label.event = fill.origin ∧ (fill.given = none → label.time = fill.captured)

def Fill.Newest (fill : Fill) (history : List ReadLabel) : Prop :=
  Since (fun label => ¬label.event.supersedes fill.view fill.key) fill.Starts history

def Fill.Has (fill : Fill) (value : Option Bytes) (history : List ReadLabel) : Prop :=
  fill.given = some value ∨ fill.given = none ∧ ∃ time, ⟨time, .returned fill.id value⟩ ∈ history

structure FillSound (history : List ReadLabel) (system : ReadSystem) (fill : Fill) : Prop where
  drawn : ⟨fill.generation, fill.view, fill.key⟩ ∈ system.drawn
  started : ∃ label ∈ history, fill.Starts label
  newest : (system.views fill.view).current fill.key = some fill.generation → fill.Newest history
  loads : fill.given = none → Since (fun label => fill.captured ≤ label.time) fill.Starts history
  loading : fill.stage = .loading → fill.given = none
  loaded : ∀ value, fill.stage = .loaded value → fill.Has value history

/-- The event from which on a view knows of content: its own capture, or that another view's
`put` has been written. -/
def Fill.Known (fill : Fill) (view : ViewId) (label : ReadLabel) : Prop :=
  if fill.given = none ∨ fill.view = view then fill.Starts label
  else label.event = .finished fill.id

theorem Fill.known_own (own : fill.given = none ∨ fill.view = view) :
    fill.Known view = fill.Starts := by
  funext label
  exact if_pos own

structure Written (maxAge : ViewId → Time) (history : List ReadLabel) (system : ReadSystem)
    (key : String) (content : HotContent) (fill : Fill) (value : Option Bytes) : Prop where
  key : fill.key = key
  content : content = .of (maxAge fill.view) fill.generation fill.captured value
  has : fill.Has value history
  past : fill.captured ≤ system.clock
  drawn : ⟨fill.generation, fill.view, fill.key⟩ ∈ system.drawn
  newest : (system.views fill.view).current fill.key = some fill.generation → fill.Newest history
  known : ∀ view, Since (fun label => label.event.supersedes view fill.key →
    fill.captured ≤ label.time) (fill.Known view) history

structure HistorySound (maxAge : ViewId → Time) (history : List ReadLabel)
    (system : ReadSystem) : Prop where
  times : ∀ label ∈ history, label.time ≤ system.clock
  distinct : (system.drawn.map (·.generation.token)).Nodup
  drawn : ∀ view key generation, (system.views view).current key = some generation →
    ⟨generation, view, key⟩ ∈ system.drawn
  closed : ∀ view, (system.views view).closed = true → (system.views view).generations = []
  barrier : ∀ view key, (system.views view).closed = false → ∀ label ∈ history,
    label.event.supersedes view key → label.time ≤ (system.views view).barrier key
  readers : ∀ reader ∈ system.readers, ⟨reader.generation, reader.view, reader.key⟩ ∈ system.drawn
  fills : ∀ fill ∈ system.fills, FillSound history system fill
  written : ∀ key content, (key, content) ∈ system.written →
    ∃ fill value, Written maxAge history system key content fill value

section

variable (sound : HistorySound maxAge history system)
include sound

theorem HistorySound.open_of_current (current : (system.views view).current key = some generation) :
    (system.views view).closed = false := by
  by_contra closed
  rw [ReadView.current_eq_some, sound.closed view (Bool.not_eq_false _ ▸ closed)] at current
  cases current

theorem HistorySound.current_of_moved (moved : Moved system label after)
    (drawn : ⟨generation, view, key⟩ ∈ system.drawn)
    (current : (after.views view).current key = some generation) :
    (system.views view).current key = some generation ∧ ¬label.event.supersedes view key := by
  cases moved.current view key generation current with
  | inl kept => exact ⟨kept.1, kept.2 (sound.open_of_current kept.1)⟩
  | inr fresh => exact absurd (mem_map.mpr ⟨_, drawn, rfl⟩) fresh.1

theorem HistorySound.newest_of_moved (moved : Moved system label after)
    (drawn : ⟨fill.generation, fill.view, fill.key⟩ ∈ system.drawn)
    (newest : (system.views fill.view).current fill.key = some fill.generation →
      fill.Newest history)
    (current : (after.views fill.view).current fill.key = some fill.generation) :
    fill.Newest (label :: history) := by
  obtain ⟨earlier, kept⟩ := sound.current_of_moved moved drawn current
  exact (newest earlier).extend kept

end

variable {value : Option Bytes}

theorem Fill.Has.extend (has : fill.Has value history) : fill.Has value (label :: history) := by
  cases has with
  | inl given => exact .inl given
  | inr load =>
    obtain ⟨given, time, returned⟩ := load
    exact .inr ⟨given, time, mem_cons_of_mem _ returned⟩

theorem FillSound.extend (sound : HistorySound maxAge history system)
    (moved : Moved system label after) (fillSound : FillSound history system fill) :
    FillSound (label :: history) after fill where
  drawn := moved.drawn _ fillSound.drawn
  started := by
    obtain ⟨start, member, starts⟩ := fillSound.started
    exact ⟨start, mem_cons_of_mem _ member, starts⟩
  newest := sound.newest_of_moved moved fillSound.drawn fillSound.newest
  loads load := by
    apply (fillSound.loads load).extend
    obtain ⟨start, member, starts⟩ := fillSound.started
    rw [← starts.2 load]
    exact (sound.times start member).trans moved.later
  loading := fillSound.loading
  loaded value stage := (fillSound.loaded value stage).extend

theorem FillSound.restage (fillSound : FillSound history system fill) (later : stage ≠ .loading)
    (loaded : ∀ value, stage = .loaded value → fill.Has value history) :
    FillSound history system { fill with stage := stage } where
  drawn := fillSound.drawn
  started := fillSound.started
  newest := fillSound.newest
  loads := fillSound.loads
  loading loading := absurd loading later
  loaded := loaded

theorem FillSound.of_starts (drawn : ⟨fill.generation, fill.view, fill.key⟩ ∈ system.drawn)
    (starts : fill.Starts label) (loading : fill.stage = .loading → fill.given = none)
    (loaded : ∀ value, fill.stage = .loaded value → fill.given = some value) :
    FillSound (label :: history) system fill where
  drawn := drawn
  started := ⟨label, mem_cons_self, starts⟩
  newest _ := .now starts
  loads _ := .now starts
  loading := loading
  loaded value stage := .inl (loaded value stage)

section

variable (sound : HistorySound maxAge history system)
include sound

section

variable (moved : Moved system label after)
include moved

theorem Written.extend {content : HotContent}
    (written : Written maxAge history system key content fill value) :
    Written maxAge (label :: history) after key content fill value where
  key := written.key
  content := written.content
  has := written.has.extend
  past := by
    rw [moved.clock]
    exact written.past.trans moved.later
  drawn := moved.drawn _ written.drawn
  newest := sound.newest_of_moved moved written.drawn written.newest
  known view := (written.known view).extend fun _ => written.past.trans moved.later

theorem Written.of_accepted (fillSound : FillSound history system fill)
    (loaded : fill.stage = .loaded value)
    (accepted : (system.views fill.view).Accepts fill.key (maxAge fill.view) fill.generation
      fill.captured label.time)
    (finishes : label.event = .finished fill.id) : Written maxAge (label :: history) after fill.key
      (.of (maxAge fill.view) fill.generation fill.captured value) fill value where
  key := rfl
  content := rfl
  has := (fillSound.loaded value loaded).extend
  past := by
    rw [moved.clock]
    exact accepted.2.2.1
  drawn := moved.drawn _ fillSound.drawn
  newest := sound.newest_of_moved moved fillSound.drawn fillSound.newest
  known view := by
    unfold Fill.Known
    split
    case isTrue own =>
      refine Since.extend ?_ fun _ => accepted.2.2.1
      cases own with
      | inl load => exact (fillSound.loads load).mono fun _ _ captured _ => captured
      | inr same =>
        refine (fillSound.newest accepted.2.1).mono fun later _ kept gone => ?_
        rw [← same] at gone
        exact absurd gone kept
    case isFalse foreign => exact .now finishes

/-- What is left to show for one step once it is known how the views have moved. -/
theorem HistorySound.of_moved (readers : ∀ reader ∈ after.readers, reader ∈ system.readers ∨
      ⟨reader.generation, reader.view, reader.key⟩ ∈ after.drawn)
    (fills : ∀ fill ∈ after.fills, fill ∈ system.fills ∨ FillSound (label :: history) after fill)
    (written : ∀ key content, (key, content) ∈ after.written → (key, content) ∈ system.written ∨
        ∃ fill value, Written maxAge (label :: history) after key content fill value) :
    HistorySound maxAge (label :: history) after := by
  constructor
  case times =>
    intro event member
    rw [moved.clock]
    cases mem_cons.mp member with
    | inl same => exact same ▸ le_refl _
    | inr earlier => exact (sound.times event earlier).trans moved.later
  case distinct => exact moved.distinct sound.distinct
  case drawn =>
    intro view key generation current
    cases moved.current view key generation current with
    | inl kept => exact moved.drawn _ (sound.drawn view key generation kept.1)
    | inr fresh => exact fresh.2
  case closed =>
    intro view closed
    cases moved.closed view closed with
    | inl empty => exact empty
    | inr same =>
      rw [same.2]
      exact sound.closed view same.1
  case barrier =>
    intro view key opened event member gone
    obtain ⟨before, raised, latest⟩ := moved.barrier view key opened
    cases mem_cons.mp member with
    | inl same =>
      rw [same] at gone ⊢
      exact latest gone
    | inr earlier =>
      cases raised with
      | inl raised => exact (sound.barrier view key before event earlier gone).trans raised
      | inr raised => exact (WithBot.coe_le_coe.mpr (sound.times event earlier)).trans raised
  case readers =>
    intro reader member
    cases readers reader member with
    | inl earlier => exact moved.drawn _ (sound.readers reader earlier)
    | inr new => exact new
  case fills =>
    intro fill member
    cases fills fill member with
    | inl earlier => exact (sound.fills fill earlier).extend sound moved
    | inr new => exact new
  case written =>
    intro key content member
    cases written key content member with
    | inl earlier =>
      obtain ⟨fill, value, written⟩ := sound.written key content earlier
      exact ⟨fill, value, written.extend sound moved⟩
    | inr new => exact new

theorem HistorySound.finished (member : fill ∈ system.fills)
    (fills : after.fills = (system.replaceFill { fill with stage := .finished }).fills)
    (same : after.readers = system.readers)
    (written : ∀ key content, (key, content) ∈ after.written → (key, content) ∈ system.written ∨
        ∃ fill value, Written maxAge (label :: history) after key content fill value) :
    HistorySound maxAge (label :: history) after := by
  apply sound.of_moved moved
  · intro reader member
    exact .inl (same ▸ member)
  · intro other stored
    rw [fills] at stored
    cases mem_rewriteAt stored with
    | inl new =>
      right
      rw [new]
      exact ((sound.fills fill member).extend sound moved).restage nofun nofun
    | inr earlier => exact .inl earlier.1
  · exact written

section

variable (readers : ∀ reader ∈ after.readers, reader ∈ system.readers)
include readers

theorem HistorySound.quiet
    (fills : after.fills = system.fills) (written : after.written = system.written) :
    HistorySound maxAge (label :: history) after :=
  sound.of_moved moved (fun reader member => .inl (readers reader member))
    (fun _ member => .inl (fills ▸ member)) fun _ _ member => .inl (written ▸ member)

theorem HistorySound.filled
    (fills : after.fills = fill :: system.fills) (new : FillSound (label :: history) after fill)
    (written : after.written = system.written) : HistorySound maxAge (label :: history) after := by
  refine sound.of_moved moved (fun reader member => .inl (readers reader member)) ?_
    fun _ _ member => .inl (written ▸ member)
  intro other member
  rcases mem_cons.mp (fills ▸ member) with rfl | earlier
  · exact .inr new
  · exact .inl earlier

end

end

theorem HistorySound.step
    (step : ReadStep maxAge system label after) : HistorySound maxAge (label :: history) after := by
  have moved := moved_of_step step
  cases step with
  | @asked view key token now generation turned later fresh taken =>
    apply sound.of_moved moved
    · intro reader member
      cases mem_cons.mp member with
      | inl new =>
        right
        rw [new]
        obtain ⟨_, same, _⟩ := ReadView.generation_eq_ok taken
        cases current : (system.views view).current key with
        | none =>
          rw [same, current]
          exact mem_cons_self
        | some kept =>
          rw [same, current]
          exact mem_cons_of_mem _ (sound.drawn view key kept current)
      | inr earlier => exact .inl earlier
    · exact fun fill member => .inl member
    · exact fun key content member => .inl member
  | served => exact sound.quiet moved (fun _ => mem_of_mem_erase) rfl rfl
  | @missed reader content token decoded retaken now id generation turned later waiting answers
      miss fresh new taken =>
    refine sound.filled moved (fun _ => mem_of_mem_erase) rfl
      (.of_starts ?_ ⟨rfl, fun _ => rfl⟩ (fun _ => rfl) nofun) rfl
    unfold ReadView.retake at taken
    split at taken
    case isTrue =>
      obtain ⟨_, same, _⟩ := ReadView.generation_eq_ok taken
      rw [same]
      exact mem_cons_self
    case isFalse =>
      cases taken
      exact mem_cons_of_mem _ (sound.readers reader waiting)
  | refreshed later fresh new replaced =>
    refine sound.filled moved (fun _ => id) rfl
      (.of_starts ?_ ⟨rfl, fun _ => rfl⟩ (fun _ => rfl) nofun) rfl
    obtain ⟨_, same, _⟩ := ReadView.generation_eq_ok replaced
    rw [same]
    exact mem_cons_self
  | @returned fill value now later member loading =>
    have load := (sound.fills fill member).loading loading
    apply sound.of_moved moved
    · exact fun reader member => .inl member
    · intro other stored
      cases mem_rewriteAt stored with
      | inl new =>
        right
        rw [new]
        refine ((sound.fills fill member).extend sound moved).restage nofun ?_
        intro found stage
        cases stage
        exact .inr ⟨load, now, mem_cons_self⟩
      | inr earlier => exact .inl earlier.1
    · exact fun key content member => .inl member
  | put later fresh new replaced =>
    refine sound.filled moved (fun _ => id) rfl (.of_starts ?_ ⟨rfl, nofun⟩ nofun ?_) rfl
    · obtain ⟨_, same, _⟩ := ReadView.generation_eq_ok replaced
      rw [same]
      exact mem_cons_self
    · intro found stage
      cases stage
      rfl
  | @published fill value now later member loaded accepted =>
    apply sound.finished moved member rfl rfl
    intro key content stored
    cases mem_cons.mp stored with
    | inl new =>
      right
      cases new
      exact ⟨fill, value, .of_accepted sound moved (sound.fills fill member) loaded accepted rfl⟩
    | inr earlier => exact .inl earlier
  | discarded later member =>
    exact sound.finished moved member rfl rfl fun key content stored => .inl stored
  | invalidated => exact sound.quiet moved (fun _ => id) rfl rfl
  | cleared => exact sound.quiet moved (fun _ => id) rfl rfl
  | closed => exact sound.quiet moved (fun _ => id) rfl rfl
  | waited => exact sound.quiet moved (fun _ => id) rfl rfl

end

theorem historySound_initial : HistorySound maxAge [] { clock := clock } := by
  constructor <;> first | exact nodup_nil | exact nofun

theorem historySound_of_run (initial : (readMachine maxAge).initial start)
    (run : (readMachine maxAge).Run start labels system) :
    HistorySound maxAge labels.reverse system := by
  obtain ⟨clock, same⟩ := initial
  subst same
  rw [← append_nil labels.reverse]
  apply run.history_invariant ?_ historySound_initial
  exact fun history first label last sound step => HistorySound.step sound step

/-- A hit serves content that nothing known to the view has superseded. -/
theorem HistorySound.exists_of_hit (sound : HistorySound maxAge history system)
    (answers : system.Answers key content)
    (hit : (system.views view).serve key (maxAge view) content generation now = some value) :
    ∃ fill : Fill, fill.key = key ∧ fill.captured ≤ now ∧ now < fill.captured + maxAge view ∧
      fill.Has value history ∧ (∃ label ∈ history, fill.Starts label) ∧
      Since (fun label => ¬label.event.supersedes view key) (fill.Known view) history := by
  unfold ReadView.serve at hit
  split at hit
  case isFalse => cases hit
  case isTrue current =>
    obtain ⟨stored, same, captured, young, newer, valueEq⟩ := ReadView.decode_eq_some hit
    subst same
    obtain ⟨fill, published, written⟩ := sound.written key stored (answers stored rfl)
    obtain ⟨ownKey, contentEq, has, _, drawn, newest, known⟩ := written
    subst contentEq
    rw [HotContent.value_of] at valueEq
    subst valueEq
    have started := (known fill.view).exists_mem
    rw [Fill.known_own (.inr rfl)] at started
    refine ⟨fill, ownKey, captured, young, has, started, ?_⟩
    cases newer with
    | inl token =>
      have owner : (⟨fill.generation, fill.view, fill.key⟩ : Draw) = ⟨generation, view, key⟩ :=
        inj_on_of_nodup_map sound.distinct drawn (sound.drawn view key generation current)
          token
      obtain ⟨sameGeneration, sameView, sameKey⟩ := Draw.mk.inj owner
      have kept := newest (by rw [sameGeneration, sameView, sameKey]; exact current)
      rw [Fill.Newest, sameView, sameKey] at kept
      rw [Fill.known_own (.inr sameView)]
      exact kept
    | inr after =>
      rw [ownKey] at known
      refine (known view).mono fun label member since gone => ?_
      have below := sound.barrier view key (sound.open_of_current current) label member gone
      have raised : (system.views view).barrier key < (fill.captured : WithBot Time) := by
        rw [ReadView.barrier, current]
        exact max_lt after.2 after.1
      exact absurd (WithBot.coe_le_coe.mpr (since gone)) (not_le.mpr (below.trans_lt raised))

/-- Where a value served to a key may come from: a load that began after the latest operation
that supersedes what the view knows of the key, the `put` that is the latest such operation, or
a `put` of another view that was written after it. -/
inductive Fresh (history : List ReadLabel) (view : ViewId) (key : String)
    (value : Option Bytes) (captured : Time) : Prop
  | loaded (fill : Nat) (owner : ViewId) (time : Time)
      (since : Since (fun label => ¬label.event.supersedes view key)
        (fun label => label = ⟨captured, .began fill owner key⟩) history)
      (returned : ⟨time, .returned fill value⟩ ∈ history)
  | put (fill : Nat) (since : Since (fun label => ¬label.event.supersedes view key)
        (fun label => label.event = .put fill view key value captured) history)
  | putElsewhere (fill : Nat) (owner : ViewId) (time : Time) (elsewhere : owner ≠ view)
      (given : ⟨time, .put fill owner key value captured⟩ ∈ history)
      (since : Since (fun label => ¬label.event.supersedes view key)
        (fun label => label.event = .finished fill) history)

theorem fresh_of_known (ownKey : fill.key = key)
    (has : fill.Has value history) (started : ∃ label ∈ history, fill.Starts label)
    (since : Since (fun label => ¬label.event.supersedes view key) (fill.Known view) history) :
    Fresh history view key value fill.captured := by
  subst ownKey
  obtain ⟨start, member, starts⟩ := started
  cases has with
  | inr load =>
    obtain ⟨load, time, returned⟩ := load
    apply Fresh.loaded fill.id fill.view time ?_ returned
    rw [Fill.known_own (.inl load)] at since
    apply since.starts_mono
    intro label starts
    have event := starts.1
    rw [Fill.origin, load] at event
    cases label
    exact congrArg₂ ReadLabel.mk (starts.2 load) event
  | inl given =>
    have event (label : ReadLabel) (starts : fill.Starts label) :
        label.event = .put fill.id fill.view fill.key value fill.captured := by
      rw [starts.1, Fill.origin, given]
    by_cases own : fill.view = view
    case pos =>
      rw [Fill.known_own (.inr own)] at since
      apply Fresh.put fill.id
      apply since.starts_mono
      intro label starts
      rw [event label starts, own]
    case neg =>
      apply Fresh.putElsewhere fill.id fill.view start.time own
      · rw [← event start starts]
        exact member
      · apply since.starts_mono
        intro label known
        unfold Fill.Known at known
        rw [if_neg] at known
        · exact known
        · rw [given]
          exact fun either => either.elim nofun own

theorem served_values_are_fresh {start before after : ReadSystem} {labels : List ReadLabel}
    {value : Option Bytes} (initial : (readMachine maxAge).initial start)
    (run : (readMachine maxAge).Run start labels before)
    (served : (readMachine maxAge).step before ⟨now, .served view key value⟩ after) :
    ∃ captured, captured ≤ now ∧ now < captured + maxAge view ∧
      Fresh labels.reverse view key value captured := by
  have sound := historySound_of_run initial run
  cases served with
  | served later waiting answers hit =>
    obtain ⟨fill, ownKey, captured, young, has, started, since⟩ :=
      sound.exists_of_hit answers hit
    exact ⟨fill.captured, captured, young, fresh_of_known ownKey has started since⟩

/-- A load that an invalidation overtakes is discarded, and the next one is served. -/
theorem overtaken_load_is_not_served : ∃ captured : Time, captured ≤ 5 ∧ 5 < captured + 3 ∧
      Fresh [⟨4, .asked 0 "key"⟩, ⟨4, .finished 1⟩, ⟨3, .returned 1 (some [5])⟩,
        ⟨3, .began 1 0 "key"⟩, ⟨2, .finished 0⟩, ⟨2, .returned 0 (some [1])⟩,
        ⟨1, .invalidated 0 "key"⟩, ⟨0, .began 0 0 "key"⟩] 0 "key" (some [5]) captured := by
  have run : (readMachine fun _ => 3).Run { clock := 0 }
      [⟨0, .began 0 0 "key"⟩, ⟨1, .invalidated 0 "key"⟩, ⟨2, .returned 0 (some [1])⟩,
        ⟨2, .finished 0⟩, ⟨3, .began 1 0 "key"⟩, ⟨3, .returned 1 (some [5])⟩, ⟨4, .finished 1⟩,
        ⟨4, .asked 0 "key"⟩] _ :=
    .cons (@ReadStep.refreshed _ _ 0 "key" 7 0 0 0 ⟨7, (0 : Time)⟩ _ (by decide)
        (show ReadSystem.Fresh { clock := 0 } 7 by decide) nofun rfl)
      (.cons (@ReadStep.invalidated _ _ 0 "key" 8 1 (by decide)
          (show ReadSystem.Fresh _ 8 by decide +kernel))
        (.cons (@ReadStep.returned _ _ ⟨0, 0, "key", none, ⟨7, (0 : Time)⟩, 0, .loading⟩
            (some [1]) 2 (by decide) mem_cons_self rfl)
          (.cons (@ReadStep.discarded _ _
              ⟨0, 0, "key", none, ⟨7, (0 : Time)⟩, 0, .loaded (some [1])⟩ _ 2
              (by decide) mem_cons_self rfl (by decide +kernel))
            (.cons (@ReadStep.refreshed _ _ 0 "key" 9 3 3 1 ⟨9, (3 : Time)⟩ _ (by decide)
                (show ReadSystem.Fresh _ 9 by decide +kernel)
                (by unfold ReadSystem.NewFill; decide +kernel) rfl)
              (.cons (@ReadStep.returned _ _ ⟨1, 0, "key", none, ⟨9, (3 : Time)⟩, 3, .loading⟩
                  (some [5]) 3 (by decide) mem_cons_self rfl)
                (.cons (@ReadStep.published _ _
                    ⟨1, 0, "key", none, ⟨9, (3 : Time)⟩, 3, .loaded (some [5])⟩ _ 4
                    (by decide) mem_cons_self rfl (by decide +kernel))
                  (.cons (@ReadStep.asked _ _ 0 "key" 10 4 ⟨9, (3 : Time)⟩ _ (le_refl 4)
                    (show ReadSystem.Fresh _ 10 by decide +kernel) rfl) (.nil _))))))))
  exact served_values_are_fresh ⟨0, rfl⟩ run
    (@ReadStep.served _ _ ⟨0, "key", ⟨9, (3 : Time)⟩⟩ (some (.of 3 ⟨9, (3 : Time)⟩ 3 (some [5])))
      _ 5 (by decide) mem_cons_self
      (by intro content same; cases same; exact mem_cons_self) (by decide +kernel))

end Linktools.Cache
