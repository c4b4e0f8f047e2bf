import Linktools.Library.GraphSearch
import Mathlib.Data.Prod.Lex

namespace Linktools.Container

open Library
open List hiding after

inductive HookPhase
  | afterComposeRender
  | check
  | beforeStart
  | afterStart
  | beforeStop
  | afterStop
  | afterRemove
deriving DecidableEq

inductive HookInvocation
  | noArgs
  | context
deriving DecidableEq

/-- The calls that the signature of a callback can bind. -/
structure CallSignature where
  canContext : Bool
  canNoArgs : Bool

structure Callback (χ ω ε : Type) where
  signature : Option CallSignature
  run : Option χ → ω → Option ε × ω

structure HookOptions (κ β : Type) where
  callback : β
  order : Int := 500
  before : List κ := []
  after : List κ := []
  optionalBefore : List κ := []
  optionalAfter : List κ := []
  uninspected : Bool := false

structure Hook (κ β : Type) extends HookOptions κ β where
  key : κ
  invocation : HookInvocation := .noArgs

/-- The arguments of `register`; an anonymous hook has no key of its own. -/
structure HookRequest (κ β : Type) extends HookOptions κ β where
  phase : HookPhase
  key : Option κ := none

inductive HookError (κ : Type)
  | validation
  | selfReference (key : κ)
  | unknown (key other : κ) (phase : HookPhase)
  | cycle (phase : HookPhase) (key : κ)

structure HookRegistry (κ β : Type) where
  hooks : HookPhase → List (Hook κ β) := fun _ => []
  sequence : Nat := 0

variable {κ β χ ω ε : Type} [DecidableEq κ]

namespace HookRegistry

def resolveInvocation (callback : Callback χ ω ε) : Except (HookError κ) (Option HookInvocation) :=
  match callback.signature with
  | none => .ok none
  | some signature =>
    if signature.canContext then .ok (some .context)
    else if signature.canNoArgs then .ok (some .noArgs)
    else .error .validation

def dependsOn (bucket : List (Hook κ β)) (key : κ) : List κ :=
  bucket.flatMap fun hook =>
    (if hook.key = key then
      (hook.after ++ hook.optionalAfter).filter (· ∈ bucket.map Hook.key) else []) ++
    if key ∈ hook.before ++ hook.optionalBefore ∧ key ∈ bucket.map Hook.key then [hook.key] else []

def sortKey (bucket : List (Hook κ β)) (key : κ) : Int ×ₗ Nat :=
  toLex (((rowAt Hook.key bucket key).map (·.order)).getD 0, (bucket.map Hook.key).idxOf key)

def sorted (bucket : List (Hook κ β)) (keys : List κ) : List κ :=
  keys.insertionSort fun left right => sortKey bucket left ≤ sortKey bucket right

def ordered (phase : HookPhase) (bucket : List (Hook κ β)) :
    Except (HookError κ) (List (Hook κ β)) :=
  filterMap (rowAt Hook.key bucket) <$>
    DepthFirst.visitAll (fun _ => .ok ()) (.cycle phase)
      (fun key => sorted bucket (dependsOn bucket key).dedup) bucket.length
      (sorted bucket (bucket.map Hook.key))

def missing (bucket : List (Hook κ β)) (keys : List κ) : List κ :=
  keys.filter (· ∉ bucket.map Hook.key)

/-- The warnings are the optional references that are missing. -/
def validate (phase : HookPhase) (bucket : List (Hook κ β)) :
    Except (HookError κ) (List (κ × κ)) := do
  bucket.forM fun hook => (hook.before ++ hook.after).forM fun other =>
    refuse (other ∉ bucket.map Hook.key) (.unknown hook.key other phase)
  let _ ← ordered phase bucket
  return bucket.flatMap fun hook =>
    (missing bucket (hook.optionalBefore ++ hook.optionalAfter)).map (hook.key, ·)

def buildHook (options : HookOptions κ (Callback χ ω ε)) (key : κ) :
    Except (HookError κ) (Hook κ (Callback χ ω ε)) := do
  refuse (key ∈ options.before ++ options.after ++ options.optionalBefore ++ options.optionalAfter)
    (.selfReference key)
  let resolved ←
    if options.uninspected then pure none else resolveInvocation options.callback
  return {
    toHookOptions := { options with uninspected := resolved.isNone }
    key
    invocation := resolved.getD .noArgs }

/-- `bucket[key] = hook`: a key that is present keeps its place. -/
def place (bucket : List (Hook κ β)) (hook : Hook κ β) : List (Hook κ β) :=
  if hook.key ∈ bucket.map Hook.key then rewriteAt Hook.key bucket hook.key hook
  else bucket ++ [hook]

variable (registry : HookRegistry κ (Callback χ ω ε))

def add (request : HookRequest κ (Callback χ ω ε)) (key : κ) :
    HookRegistry κ (Callback χ ω ε) × Except (HookError κ) (Hook κ (Callback χ ω ε)) :=
  match buildHook request.toHookOptions key with
  | .error error => (registry, .error error)
  | .ok hook =>
    ({ registry with
      hooks := Function.update registry.hooks request.phase
        (place (registry.hooks request.phase) hook) }, .ok hook)

/-- The first registration of a key wins; `sequenceKey` is the key of an anonymous one. -/
def register (sequenceKey : Nat → κ) (request : HookRequest κ (Callback χ ω ε)) :
    HookRegistry κ (Callback χ ω ε) × Except (HookError κ) (Hook κ (Callback χ ω ε)) :=
  match request.key with
  | none =>
    add { registry with sequence := registry.sequence + 1 } request (sequenceKey registry.sequence)
  | some key =>
    match rowAt Hook.key (registry.hooks request.phase) key with
    | some hook => (registry, .ok hook)
    | none => add registry request key

def unregister (phase : HookPhase) (key : κ) : HookRegistry κ (Callback χ ω ε) :=
  { registry with
    hooks := Function.update registry.hooks phase
      ((registry.hooks phase).filter fun hook => hook.key ≠ key) }

def invoke (context : Option χ) (hook : Hook κ (Callback χ ω ε)) (world : ω) : Option ε × ω :=
  hook.callback.run (if hook.invocation = .context then context else none) world

/-- The hooks that were invoked, what the last of them raised and the world it left. -/
def invokeAll (context : Option χ) :
    List (Hook κ (Callback χ ω ε)) → ω → List (Hook κ (Callback χ ω ε)) × Option ε × ω
  | [], world => ([], none, world)
  | hook :: hooks, world =>
    match invoke context hook world with
    | (some error, after) => ([hook], some error, after)
    | (none, after) => (invokeAll context hooks after).map (hook :: ·) id

/-- An error of `call` itself is raised before any hook has run. -/
def call (phase : HookPhase) (context : Option χ) (reverse : Bool) (world : ω) :
    Except (HookError κ) (List (Hook κ (Callback χ ω ε)) × Option ε × ω) := do
  let _ ← validate phase (registry.hooks phase)
  let hooks ← ordered phase (registry.hooks phase)
  return invokeAll context (if reverse then hooks.reverse else hooks) world

end HookRegistry

inductive HookCall (κ χ ω ε : Type)
  | register (request : HookRequest κ (Callback χ ω ε))
  | unregister (phase : HookPhase) (key : κ)

namespace HookRegistry

def step (sequenceKey : Nat → κ) (registry : HookRegistry κ (Callback χ ω ε)) :
    HookCall κ χ ω ε → HookRegistry κ (Callback χ ω ε)
  | .register request => (registry.register sequenceKey request).1
  | .unregister phase key => registry.unregister phase key

/-- Any sequence of registrations and removals, starting from no hooks. -/
def built (sequenceKey : Nat → κ) (calls : List (HookCall κ χ ω ε)) :
    HookRegistry κ (Callback χ ω ε) :=
  calls.foldl (step sequenceKey) {}

/-- Every bucket is a dictionary: its hooks have different keys. -/
def Distinct (hooks : HookPhase → List (Hook κ β)) : Prop :=
  ∀ phase, ((hooks phase).map Hook.key).Nodup

variable {registry : HookRegistry κ (Callback χ ω ε)} {hooks : HookPhase → List (Hook κ β)}
  {bucket : List (Hook κ β)} {phase : HookPhase}

omit [DecidableEq κ] in
theorem Distinct.update (distinct : Distinct hooks) (unique : (bucket.map Hook.key).Nodup) :
    Distinct (Function.update hooks phase bucket) := by
  intro other
  rw [Function.update_apply]
  split
  case isTrue => exact unique
  case isFalse => exact distinct other

theorem place_nodup (distinct : (bucket.map Hook.key).Nodup) (hook : Hook κ β) :
    ((place bucket hook).map Hook.key).Nodup := by
  unfold place
  split
  case isTrue => rwa [map_key_rewriteAt rfl]
  case isFalse fresh =>
    exact nodup_map_append distinct fun other stored again =>
      fresh (mem_map.mpr ⟨other, stored, again⟩)

theorem add_distinct (distinct : Distinct registry.hooks)
    (request : HookRequest κ (Callback χ ω ε)) (key : κ) :
    Distinct (registry.add request key).1.hooks := by
  unfold add
  split
  case h_1 => exact distinct
  case h_2 hook _ => exact distinct.update (place_nodup (distinct request.phase) hook)

theorem step_distinct (distinct : Distinct registry.hooks) (sequenceKey : Nat → κ)
    (call : HookCall κ χ ω ε) : Distinct (step sequenceKey registry call).hooks := by
  cases call with
  | register request =>
    rw [step, register]
    split
    case h_1 =>
      have same : Distinct (HookRegistry.mk registry.hooks (registry.sequence + 1)).hooks :=
        distinct
      exact add_distinct same request _
    case h_2 =>
      split
      case h_1 => exact distinct
      case h_2 => exact add_distinct distinct request _
  | unregister phase key =>
    exact distinct.update ((distinct phase).sublist (filter_sublist.map Hook.key))

theorem built_distinct (sequenceKey : Nat → κ) (calls : List (HookCall κ χ ω ε)) :
    Distinct (built sequenceKey calls).hooks :=
  foldlRecOn calls (step sequenceKey)
    (motive := fun registry : HookRegistry κ (Callback χ ω ε) => Distinct registry.hooks)
    (fun _ => nodup_nil) fun _ distinct call _ => step_distinct distinct sequenceKey call

def Constrains (bucket : List (Hook κ β)) (earlier later : κ) : Prop :=
  ∃ hook ∈ bucket, (hook.key = later ∧ earlier ∈ hook.after ++ hook.optionalAfter ∧
      earlier ∈ bucket.map Hook.key) ∨
    (hook.key = earlier ∧ later ∈ hook.before ++ hook.optionalBefore ∧ later ∈ bucket.map Hook.key)

def Satisfies (bucket : List (Hook κ β)) (keys : List κ) : Prop :=
  ∀ before key after, keys = before ++ key :: after →
    ∀ earlier, Constrains bucket earlier key → earlier ∈ before

def MissingReference (bucket : List (Hook κ β)) : Prop :=
  ∃ hook ∈ bucket, ∃ other ∈ hook.before ++ hook.after, other ∉ bucket.map Hook.key

def Cyclic (bucket : List (Hook κ β)) : Prop :=
  ∃ key, Relation.TransGen (Constrains bucket) key key

variable {sequence : List (Hook κ β)} {earlier later : κ}

omit [DecidableEq κ] in
theorem constrains_known (constrains : Constrains bucket earlier later) :
    earlier ∈ bucket.map Hook.key := by
  obtain ⟨hook, member, ⟨_, _, known⟩ | ⟨rfl, _, _⟩⟩ := constrains
  · exact known
  · exact mem_map_of_mem member

theorem mem_sorted_dependsOn :
    earlier ∈ sorted bucket (dependsOn bucket later).dedup ↔ Constrains bucket earlier later := by
  rw [sorted, mem_insertionSort, mem_dedup, dependsOn, mem_flatMap]
  refine exists_congr fun hook => and_congr_right fun _ => ?_
  rw [mem_append]
  apply or_congr
  · split <;> simp_all [or_and_right]
  · split <;> simp_all [eq_comm]

variable {keys : List κ}

theorem satisfies_iff : Satisfies bucket keys ↔
      DependenciesFirst (fun key => sorted bucket (dependsOn bucket key).dedup) keys := by
  simp only [Satisfies, DependenciesFirst, mem_sorted_dependsOn]

theorem sorted_perm (keys : List κ) : (sorted bucket keys).Perm keys :=
  perm_insertionSort _ keys

theorem map_key_filterMap {rows : List (Hook κ β)} (known : ∀ key ∈ keys, key ∈ rows.map Hook.key) :
    (keys.filterMap (rowAt Hook.key rows)).map Hook.key = keys := by
  induction keys with
  | nil => rfl
  | cons head tail ih =>
    obtain ⟨here, known⟩ := forall_mem_cons.mp known
    obtain ⟨row, found⟩ := rowAt_isSome_iff.mpr here
    rw [filterMap_cons_some found, map_cons, rowAt_key found, ih known]

theorem filterMap_map_key (distinct : (bucket.map Hook.key).Nodup) :
    (bucket.map Hook.key).filterMap (rowAt Hook.key bucket) = bucket := by
  rw [filterMap_map, filterMap_congr (g := some), filterMap_some]
  exact fun hook member => rowAt_of_mem distinct member

theorem ordered_ok (distinct : (bucket.map Hook.key).Nodup)
    (done : ordered phase bucket = .ok sequence) :
    sequence.Perm bucket ∧ Satisfies bucket (sequence.map Hook.key) ∧ ¬Cyclic bucket ∧
      (Satisfies bucket (sorted bucket (bucket.map Hook.key)) →
        sequence.map Hook.key = sorted bucket (bucket.map Hook.key)) := by
  obtain ⟨order, visited, rfl⟩ := map_eq_ok.mp done
  obtain ⟨unique, first, inside, known⟩ := DepthFirst.visitAll_ok
    (fun _ _ _ depends _ => constrains_known (mem_sorted_dependsOn.mp depends))
    (fun _ => (sorted_perm _).mem_iff.mp) visited
  have same : order.Perm (bucket.map Hook.key) := by
    rw [perm_ext_iff_of_nodup unique distinct]
    exact fun key => ⟨fun member => (known key member).1,
      fun member => inside key ((sorted_perm _).mem_iff.mpr member)⟩
  rw [map_key_filterMap fun key member => (known key member).1]
  refine ⟨?_, satisfies_iff.mpr first, ?_, ?_⟩
  · exact (same.filterMap _).trans (.of_eq (filterMap_map_key distinct))
  · rintro ⟨key, cycle⟩
    obtain ⟨_, constrains, _⟩ := Relation.TransGen.head'_iff.mp cycle
    refine first.acyclic unique (same.mem_iff.mpr (constrains_known constrains)) ?_
    simpa only [mem_sorted_dependsOn] using cycle
  · intro already
    refine Except.ok.inj (visited.symm.trans (DepthFirst.visitAll_of_first ?_ ?_ ?_ ?_))
    · exact (sorted_perm _).nodup_iff.mpr distinct
    · simp [(sorted_perm _).length_eq]
    · exact satisfies_iff.mp already
    · exact fun _ _ _ _ => rfl

theorem ordered_error (failed : ordered phase bucket = .error error) : Cyclic bucket := by
  have stopped : DepthFirst.visitAll (fun _ => .ok ()) (.cycle phase)
      (fun key => sorted bucket (dependsOn bucket key).dedup) (bucket.map Hook.key).length
      (sorted bucket (bucket.map Hook.key)) = .error error := by
    rw [ordered, map_eq_pure_bind, bind_eq_error] at failed
    rw [length_map]
    exact failed.resolve_right (by rintro ⟨_, _, ⟨⟩⟩)
  obtain ⟨_, _, found, _, ⟨_, _, ⟨⟩⟩ | ⟨cycle, _⟩⟩ := DepthFirst.visitAll_error
    (fun _ _ _ depends _ => constrains_known (mem_sorted_dependsOn.mp depends))
    (fun _ => (sorted_perm _).mem_iff.mp) stopped
  exact ⟨found, by simpa only [mem_sorted_dependsOn] using cycle⟩

theorem references_eq_ok (checked : PUnit) :
    (bucket.forM fun hook => (hook.before ++ hook.after).forM fun other =>
      refuse (other ∉ bucket.map Hook.key) (HookError.unknown hook.key other phase)) = .ok checked ↔
        ¬MissingReference bucket := by
  cases checked
  simp only [forM_eq_ok, refuse_eq_ok, MissingReference, not_exists, not_and]

/-- The callbacks of these hooks run one after the other, and none of them raises. -/
inductive Quiet (context : Option χ) : List (Hook κ (Callback χ ω ε)) → ω → ω → Prop
  | nil (world : ω) : Quiet context [] world world
  | cons {hook : Hook κ (Callback χ ω ε)} {hooks : List (Hook κ (Callback χ ω ε))}
      {world middle after : ω} (returns : invoke context hook world = (none, middle))
      (quiet : Quiet context hooks middle after) : Quiet context (hook :: hooks) world after

/-- All hooks are invoked, or those up to and including the first that raises. -/
def Invokes (context : Option χ) (hooks : List (Hook κ (Callback χ ω ε))) (world : ω)
    (invoked : List (Hook κ (Callback χ ω ε))) (raised : Option ε) (after : ω) : Prop :=
  (raised = none ∧ invoked = hooks ∧ Quiet context hooks world after) ∨
    ∃ before last rest middle error, raised = some error ∧ hooks = before ++ last :: rest ∧
      invoked = before ++ [last] ∧ Quiet context before world middle ∧
      invoke context last middle = (some error, after)

omit [DecidableEq κ] in
theorem invokeAll_invokes (context : Option χ) (hooks : List (Hook κ (Callback χ ω ε)))
    (world : ω) : Invokes context hooks world (invokeAll context hooks world).1
      (invokeAll context hooks world).2.1 (invokeAll context hooks world).2.2 := by
  induction hooks generalizing world with
  | nil => exact .inl ⟨rfl, rfl, .nil world⟩
  | cons head tail ih =>
    rw [invokeAll]
    split
    case h_1 error after raises =>
      exact .inr ⟨[], head, tail, world, error, rfl, rfl, rfl, .nil _, raises⟩
    case h_2 middle returns =>
      cases ih middle with
      | inl all =>
        obtain ⟨none, whole, quiet⟩ := all
        exact .inl ⟨none, congrArg (head :: ·) whole, .cons returns quiet⟩
      | inr stops =>
        obtain ⟨before, last, rest, later, error, some, split, invoked, quiet, raises⟩ := stops
        exact .inr ⟨head :: before, last, rest, later, error, some, congrArg (head :: ·) split,
          congrArg (head :: ·) invoked, .cons returns quiet, raises⟩

omit [DecidableEq κ] in
theorem Invokes.all {hooks : List (Hook κ (Callback χ ω ε))}
    (invokes : Invokes context hooks world invoked raised after)
    (silent : ∀ hook ∈ hooks, ∀ world, (invoke context hook world).1 = none) :
    raised = none ∧ invoked = hooks := by
  cases invokes with
  | inl all => exact ⟨all.1, all.2.1⟩
  | inr stops =>
    obtain ⟨before, last, rest, middle, error, _, split, _, _, raises⟩ := stops
    have returns := silent last (split ▸ mem_append_right _ mem_cons_self) middle
    rw [raises] at returns
    cases returns

theorem call_refuses_or_runs_in_order (sequenceKey : Nat → κ)
    (calls : List (HookCall κ χ ω ε)) (phase : HookPhase) :
    let registry := built sequenceKey calls
    let bucket := registry.hooks phase
    (MissingReference bucket ∨ Cyclic bucket → ∀ context reverse world,
      ∃ error, registry.call phase context reverse world = .error error) ∧
    (¬(MissingReference bucket ∨ Cyclic bucket) → ∃ sequence : List (Hook κ (Callback χ ω ε)),
      sequence.Perm bucket ∧ Satisfies bucket (sequence.map Hook.key) ∧
      (Satisfies bucket (sorted bucket (bucket.map Hook.key)) →
        sequence.map Hook.key = sorted bucket (bucket.map Hook.key)) ∧
      ∀ context reverse world, ∃ invoked raised after,
        registry.call phase context reverse world = .ok (invoked, raised, after) ∧
        Invokes context (if reverse then sequence.reverse else sequence) world invoked raised
          after ∧
        ((∀ hook ∈ bucket, ∀ world, (invoke context hook world).1 = none) →
          raised = none ∧ invoked = if reverse then sequence.reverse else sequence)) := by
  intro registry bucket
  have distinct : (bucket.map Hook.key).Nodup := built_distinct sequenceKey calls phase
  constructor
  · intro unsound context reverse world
    apply exists_error_of_not_ok
    intro outcome done
    simp only [call, validate, bind_eq_ok, references_eq_ok] at done
    obtain ⟨_, ⟨_, complete, sequence, arranged, _⟩, _⟩ := done
    exact unsound.elim complete (ordered_ok distinct arranged).2.2.1
  · intro sound
    rw [not_or] at sound
    cases arranged : ordered phase bucket with
    | error error => exact absurd (ordered_error arranged) sound.2
    | ok sequence =>
      obtain ⟨visits, satisfied, _, already⟩ := ordered_ok distinct arranged
      refine ⟨sequence, visits, satisfied, already, fun context reverse world => ?_⟩
      have invokes : Invokes context _ world _ _ _ := invokeAll_invokes context
        (if reverse then sequence.reverse else sequence) world
      have done : registry.call phase context reverse world =
          .ok (invokeAll context (if reverse then sequence.reverse else sequence) world) := by
        rw [call, validate, (references_eq_ok ⟨⟩).mpr sound.1, ok_bind, arranged]
        rfl
      refine ⟨_, _, _, done, invokes, fun silent => invokes.all fun hook member => ?_⟩
      refine silent hook (visits.mem_iff.mp ?_)
      cases reverse with
      | true => exact mem_reverse.mp member
      | false => exact member

/-- The first of two hooks raises. -/
def failingCalls : List (HookCall Nat Unit Unit Unit) :=
  [.register { phase := .check, key := some 1, callback := ⟨none, fun _ _ => (some (), ())⟩ },
    .register { phase := .check, key := some 2, callback := ⟨none, fun _ _ => (none, ())⟩ }]

theorem raising_hook_stops_the_others :
    (((built id failingCalls).hooks .check).map Hook.key = [1, 2]) ∧
      (((built id failingCalls).call .check none false ()).toOption.map fun outcome =>
        (outcome.1.map Hook.key, outcome.2.1)) = some ([1], some ()) :=
  ⟨by decide, by decide⟩

end HookRegistry

end Linktools.Container
