import Linktools.Cache.MemoryAccounting

namespace Linktools.Cache

open Library Function List

/-! The in-memory backend under any order of calls.  An append that finds no room may wait; what
makes room wakes it. -/

variable {Key : Type}

inductive CacheEvent (Key : Type)
  | get (key : String) (answer : Option Bytes)
  | put (key : String) (content : Bytes)
  | delete (key : String)
  | containsMany (keys answer : List String)
  | append (entry : PendingEntry Key) (wait : Bool) (answer : MemoryCache.AppendAnswer)
  | resume (entry : PendingEntry Key) (answer : MemoryCache.AppendAnswer)
  | cancel (entry : PendingEntry Key)
  | readBatch (scope : String) (limit : Int) (answer : Except String (List (PendingEntry Key)))
  | ack (scope : String) (ids : List String)

structure CacheSystem (Key : Type) where
  cache : MemoryCache Key
  waiting : List (PendingEntry Key × Bool) := []

namespace CacheSystem

variable (system : CacheSystem Key)

def notified (call : Bool × MemoryCache Key) : CacheSystem Key where
  cache := call.2
  waiting := if call.1 then system.waiting.map fun waiter => (waiter.1, true) else system.waiting

end CacheSystem

variable [DecidableEq Key]

inductive CacheStep (system : CacheSystem Key) : CacheEvent Key → CacheSystem Key → Prop
  | get : CacheStep system (.get key (system.cache.get key).1)
        { system with cache := (system.cache.get key).2 }
  | put {key : String} {content : Bytes} :
      CacheStep system (.put key content) { system with cache := system.cache.put key content }
  | delete {key : String} :
      CacheStep system (.delete key) (system.notified (system.cache.delete key))
  | containsMany {keys : List String} :
      CacheStep system (.containsMany keys (system.cache.containsMany keys)) system
  | neverFits (large : system.cache.NeverFits entry) :
      CacheStep system (.append entry wait .refused) system
  | append {entry : PendingEntry Key} {wait : Bool} (fits : ¬system.cache.NeverFits entry)
      (ended : (system.cache.tryAppend entry).1 ≠ .blocked) :
      CacheStep system (.append entry wait (system.cache.tryAppend entry).1)
        { system with cache := (system.cache.tryAppend entry).2 }
  | refuse {entry : PendingEntry Key} (fits : ¬system.cache.NeverFits entry)
      (blocked : (system.cache.tryAppend entry).1 = .blocked) :
      CacheStep system (.append entry false .refused)
        { system with cache := (system.cache.tryAppend entry).2 }
  | wait {entry : PendingEntry Key} (fits : ¬system.cache.NeverFits entry)
      (blocked : (system.cache.tryAppend entry).1 = .blocked) :
      CacheStep system (.append entry true .blocked)
        ⟨(system.cache.tryAppend entry).2, system.waiting ++ [(entry, false)]⟩
  | resume {entry : PendingEntry Key} {before after : List (PendingEntry Key × Bool)}
      (awake : system.waiting = before ++ (entry, true) :: after) :
      CacheStep system (.resume entry (system.cache.tryAppend entry).1)
        ⟨(system.cache.tryAppend entry).2,
          before ++ (if (system.cache.tryAppend entry).1 = .blocked then [(entry, false)]
          else []) ++ after⟩
  | cancel {entry : PendingEntry Key} {awake : Bool} {before after : List (PendingEntry Key × Bool)}
      (waits : system.waiting = before ++ (entry, awake) :: after) :
      CacheStep system (.cancel entry) { system with waiting := before ++ after }
  | readBatch :
      CacheStep system (.readBatch scope limit (system.cache.readBatch scope limit)) system
  | ack {scope : String} {ids : List String} :
      CacheStep system (.ack scope ids) (system.notified (system.cache.ack scope ids))

def cacheMachine (maxBytes : Nat) (maxSize : Option Nat) :
    Machine (CacheSystem Key) (CacheEvent Key) where
  initial system := system = ⟨⟨maxBytes, maxSize, [], 0, [], 0, 0⟩, []⟩
  step := CacheStep

def pendingAfter (pending : List (PendingEntry Key)) : CacheEvent Key → List (PendingEntry Key)
  | .append entry _ .admitted => pending ++ [entry]
  | .resume entry .admitted => pending ++ [entry]
  | .ack scope ids => pending.filter fun entry => ¬(entry.scope = scope ∧ entry.id ∈ ids)
  | _ => pending

/-- The last put of each key that fits the cache, since the last deletion of the key. -/
def latestAfter (maxBytes : Nat) (latest : String → Option Bytes) :
    CacheEvent Key → String → Option Bytes
  | .put key content =>
    if maxBytes < hotCharge content then latest else update latest key (some content)
  | .delete key => update latest key none
  | _ => latest

structure CacheKept (maxBytes : Nat) (maxSize : Option Nat) (pending : List (PendingEntry Key))
    (latest : String → Option Bytes) (system : CacheSystem Key) : Prop where
  accounted : system.cache.Accounted
  maxBytes : system.cache.maxBytes = maxBytes
  maxSize : system.cache.maxSize = maxSize
  pending : system.cache.pending = pending
  latest : ∀ item ∈ system.cache.items, latest item.1 = some item.2
  waiting : ∀ waiter ∈ system.waiting, waiter.2 = false →
    ¬system.cache.HasRoom (pendingCharge waiter.1.content)

variable {maxBytes : Nat} {maxSize : Option Nat} {pending : List (PendingEntry Key)}
  {latest : String → Option Bytes} {system next last : CacheSystem Key} {event : CacheEvent Key}
  {events : List (CacheEvent Key)} {entry : PendingEntry Key} {cache : MemoryCache Key}

namespace CacheKept

open MemoryCache

omit [DecidableEq Key] in
theorem hot (kept : CacheKept maxBytes maxSize pending latest system)
    (hot : HotOnly system.cache cache) (accounted : cache.Accounted)
    (items : ∀ item ∈ cache.items, recent item.1 = some item.2) :
    CacheKept maxBytes maxSize pending recent { system with cache } where
  accounted := accounted
  maxBytes := by
    rw [show cache = _ from hot]
    exact kept.maxBytes
  maxSize := by
    rw [show cache = _ from hot]
    exact kept.maxSize
  pending := by
    rw [show cache = _ from hot]
    exact kept.pending
  latest := items
  waiting waiter member asleep := fun room =>
    kept.waiting waiter member asleep ((hot.hasRoom _).mp room)

omit [DecidableEq Key] in
theorem notify (kept : CacheKept maxBytes maxSize pending latest system)
    (unchanged : call.1 = false → call.2 = system.cache) (accounted : call.2.Accounted)
    (limits : call.2.maxBytes = system.cache.maxBytes ∧ call.2.maxSize = system.cache.maxSize)
    (pending_eq : call.2.pending = left)
    (items : ∀ item ∈ call.2.items, recent item.1 = some item.2) :
    CacheKept maxBytes maxSize left recent (system.notified call) where
  accounted := accounted
  maxBytes := limits.1.trans kept.maxBytes
  maxSize := limits.2.trans kept.maxSize
  pending := pending_eq
  latest := items
  waiting waiter member asleep := by
    rw [CacheSystem.notified] at member ⊢
    cases told : call.1 with
    | false =>
      rw [told] at member
      rw [unchanged told]
      exact kept.waiting waiter member asleep
    | true =>
      rw [told] at member
      obtain ⟨other, _, same⟩ := mem_map.mp member
      rw [← same] at asleep
      cases asleep

theorem append (kept : CacheKept maxBytes maxSize pending latest system) {answer : AppendAnswer}
    (ends : AppendEnds entry system.cache answer cache) {waiting : List (PendingEntry Key × Bool)}
    (waiters : ∀ waiter ∈ waiting, waiter ∈ system.waiting ∨
      waiter = (entry, false) ∧ answer = .blocked) :
    CacheKept maxBytes maxSize (if answer = .admitted then pending ++ [entry] else pending) latest
      ⟨cache, waiting⟩ := by
  have accounted := ends.accounted kept.accounted
  have asleep : ∀ waiter ∈ waiting, waiter.2 = false → answer ≠ .blocked →
      ¬system.cache.HasRoom (pendingCharge waiter.1.content) := by
    intro waiter member asleep ended
    cases waiters waiter member with
    | inl before => exact kept.waiting waiter before asleep
    | inr own => exact absurd own.2 ended
  cases ends with
  | conflict =>
    exact ⟨kept.accounted, kept.maxBytes, kept.maxSize, kept.pending, kept.latest,
      fun waiter member sleeps => asleep waiter member sleeps nofun⟩
  | repeated =>
    exact ⟨kept.accounted, kept.maxBytes, kept.maxSize, kept.pending, kept.latest,
      fun waiter member sleeps => asleep waiter member sleeps nofun⟩
  | blocked evicts full =>
    have hot := kept.hot evicts.pending accounted fun item member =>
      kept.latest item (evicts.kept.subset member)
    refine ⟨accounted, hot.maxBytes, hot.maxSize, hot.pending, hot.latest, ?_⟩
    intro waiter member sleeps room
    have before := (evicts.pending.hasRoom _).mp room
    cases waiters waiter member with
    | inl earlier => exact kept.waiting waiter earlier sleeps before
    | inr own =>
      rw [own.1] at before
      exact full before
  | @admitted evicted evicts =>
    have hot := kept.hot evicts.pending (evicts.bounded kept.accounted) fun item member =>
      kept.latest item (evicts.kept.subset member)
    refine ⟨accounted, hot.maxBytes, hot.maxSize, ?_, hot.latest, ?_⟩
    · rw [if_pos rfl, ← hot.pending]
      rfl
    · intro waiter member sleeps larger
      refine asleep waiter member sleeps nofun ((evicts.pending.hasRoom _).mp ?_)
      obtain ⟨bytes, counts⟩ := larger
      dsimp only [withEntry] at bytes counts
      refine ⟨by omega, fun limit limited => ?_⟩
      have counted := counts limit limited
      omega

end CacheKept

theorem cacheStep_kept (kept : CacheKept maxBytes maxSize pending latest system)
    (step : CacheStep system event next) :
    CacheKept maxBytes maxSize (pendingAfter pending event) (latestAfter maxBytes latest event)
      next := by
  have accounted := kept.accounted
  cases step with
  | get =>
    exact kept.hot MemoryCache.get_hotOnly accounted.get fun item member =>
      kept.latest item (MemoryCache.mem_get accounted.distinct member)
  | @put =>
    refine kept.hot MemoryCache.put_hotOnly accounted.put fun item member => ?_
    rw [latestAfter, ← kept.maxBytes]
    cases MemoryCache.mem_put accounted.toRecorded member with
    | inl large =>
      rw [if_pos large.1]
      exact kept.latest item large.2
    | inr fits =>
      rw [if_neg fits.1]
      cases fits.2 with
      | inl own =>
        rw [own]
        exact update_self ..
      | inr other =>
        rw [update_of_ne other.2]
        exact kept.latest item other.1
  | @delete key =>
    refine kept.notify ?_ accounted.delete ⟨rfl, rfl⟩ kept.pending fun item member => ?_
    · intro absent
      have none := Option.not_isSome_iff_eq_none.mp (Bool.eq_false_iff.mp absent)
      change system.cache.without key = system.cache
      rw [MemoryCache.without, MemoryCache.itemsWithout_of_none none, none]
    · have other := MemoryCache.mem_without member
      rw [latestAfter, update_of_ne other.2]
      exact kept.latest item other.1
  | containsMany => exact kept
  | neverFits => exact kept
  | @append entry =>
    have ends := MemoryCache.tryAppend_ends accounted.toRecorded entry
    have result : CacheKept maxBytes maxSize _ latest ⟨_, system.waiting⟩ :=
      kept.append ends fun _ member => .inl member
    generalize (system.cache.tryAppend entry).1 = answer at result ⊢
    cases answer <;> exact result
  | @refuse entry fits blocked =>
    have ends := MemoryCache.tryAppend_ends accounted.toRecorded entry
    have result : CacheKept maxBytes maxSize _ latest ⟨_, system.waiting⟩ :=
      kept.append ends fun _ member => .inl member
    rw [blocked] at result
    exact result
  | @wait entry fits blocked =>
    have ends := MemoryCache.tryAppend_ends accounted.toRecorded entry
    have result : CacheKept maxBytes maxSize _ latest ⟨_, system.waiting ++ [(entry, false)]⟩ :=
      kept.append ends fun waiter member => (mem_append.mp member).imp id fun own =>
        ⟨mem_singleton.mp own, blocked⟩
    rw [blocked] at result
    exact result
  | @resume entry before after awake =>
    have ends := MemoryCache.tryAppend_ends accounted.toRecorded entry
    have waiters : ∀ waiter ∈ before ++
        (if (system.cache.tryAppend entry).1 = .blocked then [(entry, false)] else []) ++ after,
          waiter ∈ system.waiting ∨
            waiter = (entry, false) ∧ (system.cache.tryAppend entry).1 = .blocked := by
      intro waiter member
      rw [awake]
      cases mem_append.mp member with
      | inr later => exact .inl (mem_append_right _ (mem_cons_of_mem _ later))
      | inl front =>
        cases mem_append.mp front with
        | inl earlier => exact .inl (mem_append_left _ earlier)
        | inr own =>
          split at own
          case isTrue blocked => exact .inr ⟨mem_singleton.mp own, blocked⟩
          case isFalse => cases own
    have result := kept.append ends waiters
    generalize (system.cache.tryAppend entry).1 = answer at result ⊢
    cases answer <;> exact result
  | @cancel entry awake before after waits =>
    refine ⟨kept.accounted, kept.maxBytes, kept.maxSize, kept.pending, kept.latest, ?_⟩
    intro waiter member asleep
    refine kept.waiting waiter ?_ asleep
    rw [waits]
    cases mem_append.mp member with
    | inl front => exact mem_append_left _ front
    | inr back => exact mem_append_right _ (mem_cons_of_mem _ back)
  | readBatch => exact kept
  | @ack scope ids =>
    obtain ⟨items, limits⟩ := @MemoryCache.ack_rest _ system.cache scope ids
    refine kept.notify ?_ accounted.ack limits ?_ ?_
    · intro untold
      rw [MemoryCache.ack] at untold ⊢
      split at untold
      case isTrue => cases untold
      case isFalse none => rw [if_neg none]
    · rw [MemoryCache.ack_pending, kept.pending]
      rfl
    · rw [items]
      exact kept.latest

omit [DecidableEq Key] in
theorem mem_pendingAfter (member : entry ∈ pending) (event : CacheEvent Key) :
    entry ∈ pendingAfter pending event ∨ ∃ scope ids, event = .ack scope ids ∧
      entry.scope = scope ∧ entry.id ∈ ids := by
  unfold pendingAfter
  split
  case h_1 => exact .inl (mem_append_left _ member)
  case h_2 => exact .inl (mem_append_left _ member)
  case h_3 scope ids =>
    by_cases named : entry.scope = scope ∧ entry.id ∈ ids
    case pos => exact .inr ⟨scope, ids, rfl, named⟩
    case neg => exact .inl (mem_filter.mpr ⟨member, decide_eq_true named⟩)
  case h_4 => exact .inl member

theorem cacheRun_kept (run : Machine.Run (cacheMachine maxBytes maxSize) system events next)
    (kept : CacheKept maxBytes maxSize pending latest system) :
    CacheKept maxBytes maxSize (events.foldl pendingAfter pending)
      (events.foldl (latestAfter maxBytes) latest) next := by
  induction run generalizing pending latest with
  | nil => exact kept
  | cons step _ ih => exact ih (cacheStep_kept kept step)

/-- Every cache that a history reaches is within its budget, keeps the unacknowledged entries in
the order of their admission, gives back the last fitting put of a key or nothing, and lets no
append sleep that finds room. -/
theorem cache_histories_are_kept
    (run : Machine.Run (cacheMachine maxBytes maxSize) ⟨⟨maxBytes, maxSize, [], 0, [], 0, 0⟩, []⟩
      events (system : CacheSystem Key)) :
    system.cache.Accounted ∧ system.cache.maxBytes = maxBytes ∧ system.cache.maxSize = maxSize ∧
    system.cache.pending = events.foldl pendingAfter [] ∧
    (∀ event next, CacheStep system event next → ∀ entry ∈ system.cache.pending,
      entry ∈ next.cache.pending ∨ ∃ scope ids, event = .ack scope ids ∧ entry.scope = scope ∧
        entry.id ∈ ids) ∧
    (∀ scope limit answer next, CacheStep system (.readBatch scope limit answer) next →
      0 < limit → answer = .ok (((events.foldl pendingAfter []).filter
        fun entry => entry.scope = scope).take limit.toNat)) ∧
    (∀ key content next, CacheStep system (.get key (some content)) next →
      events.foldl (latestAfter maxBytes) (fun _ => none) key = some content) ∧
    ∀ waiter ∈ system.waiting, system.cache.HasRoom (pendingCharge waiter.1.content) →
      waiter.2 = true ∧ ∀ answer next, CacheStep system (.resume waiter.1 answer) next →
        (∃ text, answer = .conflict text) ∨ waiter.1 ∈ next.cache.pending := by
  have start : CacheKept maxBytes maxSize [] (fun _ => none)
      (⟨⟨maxBytes, maxSize, [], 0, [], 0, 0⟩, []⟩ : CacheSystem Key) :=
    ⟨MemoryCache.accounted_start, rfl, rfl, rfl, nofun, nofun⟩
  have kept := cacheRun_kept run start
  refine ⟨kept.accounted, kept.maxBytes, kept.maxSize, kept.pending, ?_, ?_, ?_, ?_⟩
  · intro event next step entry member
    rw [(cacheStep_kept kept step).pending, ← kept.pending]
    exact mem_pendingAfter member event
  · intro scope limit answer next step positive
    cases step with
    | readBatch =>
      rw [MemoryCache.readBatch, if_neg (Int.not_le.mpr positive), kept.pending]
  · intro key content next step
    generalize answered : some content = answer at step
    cases step with
    | get =>
      have found : system.cache.value key = some content := by
        rw [answered, MemoryCache.get]
        cases system.cache.value key with
        | none => rfl
        | some value => rfl
      rw [← answered]
      exact kept.latest (key, content)
        ((MemoryCache.value_eq_some kept.accounted.distinct).mp found)
  · intro waiter member room
    constructor
    · by_contra asleep
      exact kept.waiting waiter member (Bool.eq_false_iff.mpr asleep) room
    · intro answer next step
      cases step with
      | resume =>
        have ends := MemoryCache.tryAppend_ends kept.accounted.toRecorded waiter.1
        dsimp only
        generalize (system.cache.tryAppend waiter.1).1 = answer at ends ⊢
        generalize (system.cache.tryAppend waiter.1).2 = after at ends ⊢
        cases ends with
        | conflict => exact .inl ⟨_, rfl⟩
        | repeated present => exact .inr present
        | admitted => exact .inr (mem_append_right _ mem_cons_self)
        | blocked _ full => exact absurd room full

/-- The last put of each key since its last deletion, whatever its size. -/
def lastPutAfter (latest : String → Option Bytes) : CacheEvent Key → String → Option Bytes
  | .put key content => update latest key (some content)
  | .delete key => update latest key none
  | _ => latest

theorem oversized_put_leaves_older_value : ¬∀ (maxBytes : Nat) (maxSize : Option Nat)
    (events : List (CacheEvent String)) (system : CacheSystem String),
      Machine.Run (cacheMachine maxBytes maxSize) ⟨⟨maxBytes, maxSize, [], 0, [], 0, 0⟩, []⟩
        events system → ∀ key content next, CacheStep system (.get key (some content)) next →
        events.foldl lastPutAfter (fun _ => none) key = some content := by
  intro coherent
  have read := coherent 2 none [.put "key" [1], .put "key" [1, 2, 3]] _
    (.cons .put (.cons .put (.nil _))) "key" [1] _ .get
  exact absurd read (by decide)

/-- An acknowledgement wakes the append that waited for its room. -/
theorem sample_waiting_append : ∃ system : CacheSystem String,
    Machine.Run (cacheMachine 2 none) ⟨⟨2, none, [], 0, [], 0, 0⟩, []⟩
      [.append ⟨"scope", "first", "key", some [1, 2]⟩ true .admitted,
        .append ⟨"scope", "second", "key", some [3]⟩ true .blocked, .ack "scope" ["first"]] system ∧
      ∀ waiter ∈ system.waiting, waiter.2 = true := by
  have run : Machine.Run (cacheMachine 2 none) ⟨⟨2, none, [], 0, [], 0, 0⟩, []⟩ _ _ :=
    .cons (@CacheStep.append _ _ _ ⟨"scope", "first", "key", some [1, 2]⟩ true
      (by decide +kernel) (by decide +kernel)) (.cons (@CacheStep.wait _ _ _
        ⟨"scope", "second", "key", some [3]⟩ (by decide +kernel) (by decide +kernel))
          (.cons (@CacheStep.ack _ _ _ "scope" ["first"]) (.nil _)))
  refine ⟨_, run, ?_⟩
  intro waiter member
  refine ((cache_histories_are_kept run).2.2.2.2.2.2.2 waiter member ?_).1
  have only : waiter.1.content = some [3] := by
    revert waiter
    decide +kernel
  rw [only]
  decide +kernel

end Linktools.Cache
