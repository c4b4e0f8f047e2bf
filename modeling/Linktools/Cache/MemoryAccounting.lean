import Linktools.Cache.ReadSystem
import Mathlib.Algebra.Order.BigOperators.Group.List
import Mathlib.Algebra.Order.Group.Nat

namespace Linktools.Cache

open Library List

/-! The contents of the in-memory backend: hot entries, which yield, and pending entries, which
stay until they are acknowledged, under one budget. -/

def contentCharge (size : Nat) : Nat :=
  max 1 size

def hotCharge (content : Bytes) : Nat :=
  contentCharge content.length

def pendingCharge (content : Option Bytes) : Nat :=
  contentCharge ((content.map List.length).getD 0)

variable {Key : Type}

structure PendingEntry (Key : Type) where
  scope : String
  id : String
  key : Key
  content : Option Bytes

/-- The entries of all scopes stand in one list, in the order of their admission. -/
structure MemoryCache (Key : Type) where
  maxBytes : Nat
  maxSize : Option Nat
  items : List (String × Bytes) := []
  size : Int := 0
  pending : List (PendingEntry Key) := []
  pendingSize : Int := 0
  pendingCount : Int := 0

namespace MemoryCache

variable (cache : MemoryCache Key)

def value (key : String) : Option Bytes :=
  (rowAt Prod.fst cache.items key).map Prod.snd

def itemsWithout (key : String) : List (String × Bytes) :=
  cache.items.filter fun item => item.1 ≠ key

def get (key : String) : Option Bytes × MemoryCache Key :=
  match cache.value key with
  | none => (none, cache)
  | some content => (some content, { cache with items := cache.itemsWithout key ++
    [(key, content)] })

/-- So many hot entries of such a size leave no place for one more charge. -/
def Exceeds (size : Int) (length charge count : Nat) : Prop :=
  cache.maxBytes < size + cache.pendingSize + charge ∨
    ∃ maxSize ∈ cache.maxSize, maxSize < length + cache.pendingCount + count

instance (size : Int) (length charge count : Nat) :
    Decidable (cache.Exceeds size length charge count) :=
  inferInstanceAs (Decidable (_ ∨ ∃ maxSize ∈ cache.maxSize, _))

def evictLoop (charge count : Nat) : List (String × Bytes) → Int → List (String × Bytes) × Int
  | [], size => ([], size)
  | item :: rest, size =>
    if cache.Exceeds size (rest.length + 1) charge count then
      evictLoop charge count rest (size - hotCharge item.2)
    else (item :: rest, size)

def evict (charge count : Nat) : MemoryCache Key :=
  let (items, size) := cache.evictLoop charge count cache.items cache.size
  { cache with items, size }

def without (key : String) : MemoryCache Key :=
  { cache with
    items := cache.itemsWithout key
    size := match cache.value key with
      | none => cache.size
      | some previous => cache.size - hotCharge previous }

def put (key : String) (content : Bytes) : MemoryCache Key :=
  if cache.maxBytes < hotCharge content then cache
  else
    let removed := cache.without key
    ({ removed with
      items := removed.items ++ [(key, content)]
      size := removed.size + hotCharge content } : MemoryCache Key).evict 0 0

def delete (key : String) : Bool × MemoryCache Key :=
  ((cache.value key).isSome, cache.without key)

def containsMany (keys : List String) : List String :=
  keys.filter fun key => (cache.value key).isSome

inductive AppendAnswer
  | refused
  | conflict (text : String)
  | repeated
  | admitted
  | blocked
deriving DecidableEq

def pendingAt (scope id : String) : Option (PendingEntry Key) :=
  cache.pending.find? fun entry => entry.scope = scope ∧ entry.id = id

def HasRoom (charge : Nat) : Prop :=
  cache.pendingSize + charge ≤ cache.maxBytes ∧
    ∀ maxSize ∈ cache.maxSize, cache.pendingCount < maxSize

instance (charge : Nat) : Decidable (cache.HasRoom charge) :=
  inferInstanceAs (Decidable (_ ∧ ∀ maxSize ∈ cache.maxSize, _))

def withEntry (entry : PendingEntry Key) : MemoryCache Key :=
  { cache with
    pending := cache.pending ++ [entry]
    pendingSize := cache.pendingSize + pendingCharge entry.content
    pendingCount := cache.pendingCount + 1 }

def NeverFits (entry : PendingEntry Key) : Prop :=
  cache.maxBytes < pendingCharge entry.content ∨ cache.maxSize = some 0

instance (entry : PendingEntry Key) : Decidable (cache.NeverFits entry) :=
  inferInstanceAs (Decidable (_ ∨ _))

def tryAppend [DecidableEq Key] (entry : PendingEntry Key) : AppendAnswer × MemoryCache Key :=
  match cache.pendingAt entry.scope entry.id with
  | some previous =>
    if (previous.key, previous.content) ≠ (entry.key, entry.content) then
      (.conflict "buffer entry ID reused with different content or key", cache)
    else (.repeated, cache)
  | none =>
    let evicted := cache.evict (pendingCharge entry.content) 1
    if evicted.HasRoom (pendingCharge entry.content) then (.admitted, evicted.withEntry entry)
    else (.blocked, evicted)

def readBatch (scope : String) (limit : Int) : Except String (List (PendingEntry Key)) :=
  if limit ≤ 0 then .error "batch limit must be a positive integer"
  else .ok ((cache.pending.filter fun entry => entry.scope = scope).take limit.toNat)

def ackOne (scope : String) (cache : MemoryCache Key) (id : String) : MemoryCache Key :=
  match cache.pendingAt scope id with
  | none => cache
  | some entry =>
    { cache with
      pending := cache.pending.filter fun other => ¬(other.scope = scope ∧ other.id = id)
      pendingSize := cache.pendingSize - pendingCharge entry.content
      pendingCount := cache.pendingCount - 1 }

/-- An acknowledgement, and whether the appenders that wait are told of it. -/
def ack (scope : String) (ids : List String) : Bool × MemoryCache Key :=
  if ∃ entry ∈ cache.pending, entry.scope = scope then (true, ids.foldl (ackOne scope) cache)
  else (false, cache)

end MemoryCache

variable {cache : MemoryCache Key} {key : String} {content : Bytes} {items : List (String × Bytes)}
  {entry : PendingEntry Key} {after : MemoryCache Key} {charge count : Nat}

def hotSum (items : List (String × Bytes)) : Nat :=
  (items.map fun item => hotCharge item.2).sum

def pendingSum (pending : List (PendingEntry Key)) : Nat :=
  (pending.map fun entry => pendingCharge entry.content).sum

def PendingEntry.name (entry : PendingEntry Key) : String × String :=
  (entry.scope, entry.id)

namespace MemoryCache

structure Recorded (cache : MemoryCache Key) : Prop where
  distinct : (cache.items.map Prod.fst).Nodup
  size : cache.size = hotSum cache.items
  named : (cache.pending.map PendingEntry.name).Nodup
  pendingSize : cache.pendingSize = pendingSum cache.pending
  pendingCount : cache.pendingCount = cache.pending.length

structure Bounded (cache : MemoryCache Key) : Prop where
  bytes : cache.size + cache.pendingSize ≤ cache.maxBytes
  count : ∀ maxSize ∈ cache.maxSize, cache.items.length + cache.pending.length ≤ maxSize

structure Accounted (cache : MemoryCache Key) : Prop extends Recorded cache, Bounded cache

theorem accounted_start {maxBytes : Nat} {maxSize : Option Nat} :
    Accounted (⟨maxBytes, maxSize, [], 0, [], 0, 0⟩ : MemoryCache Key) where
  distinct := nodup_nil
  size := rfl
  named := nodup_nil
  pendingSize := rfl
  pendingCount := rfl
  bytes := Int.natCast_nonneg _
  count _ _ := Nat.zero_le _

theorem value_eq_some (distinct : (cache.items.map Prod.fst).Nodup) :
    cache.value key = some content ↔ (key, content) ∈ cache.items := by
  rw [value, Option.map_eq_some_iff]
  constructor
  · rintro ⟨⟨found, stored⟩, located, rfl⟩
    obtain ⟨member, same⟩ := (rowAt_eq_some_iff distinct).mp located
    cases same
    exact member
  · intro member
    exact ⟨(key, content), (rowAt_eq_some_iff distinct).mpr ⟨member, rfl⟩, rfl⟩

theorem itemsWithout_of_none (absent : cache.value key = none) :
    cache.itemsWithout key = cache.items := by
  rw [value, Option.map_eq_none_iff, rowAt_eq_none_iff] at absent
  rw [itemsWithout, filter_eq_self]
  intro item member
  exact decide_eq_true fun same => absent (same ▸ mem_map_of_mem member)

theorem Recorded.without (recorded : cache.Recorded) : (cache.without key).Recorded where
  distinct := recorded.distinct.sublist (filter_sublist.map Prod.fst)
  size := by
    rw [MemoryCache.without]
    cases found : cache.value key with
    | none =>
      dsimp only
      rw [itemsWithout_of_none found, recorded.size]
    | some previous =>
      have sum := sum_filter_key (fun item => hotCharge item.2) recorded.distinct
        ((value_eq_some recorded.distinct).mp found)
      dsimp only [itemsWithout]
      rw [recorded.size, hotSum, sum, hotSum]
      dsimp only
      omega
  named := recorded.named
  pendingSize := recorded.pendingSize
  pendingCount := recorded.pendingCount

theorem key_notMem_without : key ∉ (cache.without key).items.map Prod.fst := by
  intro member
  obtain ⟨item, inside, same⟩ := mem_map.mp member
  exact of_decide_eq_true (mem_filter.mp inside).2 same

theorem hotSum_append : hotSum (items ++ more) = hotSum items + hotSum more := by
  rw [hotSum, map_append, sum_append, hotSum, hotSum]

theorem Recorded.renew (recorded : cache.Recorded) (content : Bytes) :
    ({ cache.without key with
      items := (cache.without key).items ++ [(key, content)]
      size := (cache.without key).size + hotCharge content } : MemoryCache Key).Recorded where
  distinct := by
    rw [map_append]
    refine List.Nodup.append recorded.without.distinct (nodup_singleton _) ?_
    intro other member own
    rw [mem_singleton.mp own] at member
    exact key_notMem_without member
  size := by
    have sum : (cache.without key).size = _ := recorded.without.size
    dsimp only
    rw [hotSum_append, sum]
    rfl
  named := recorded.named
  pendingSize := recorded.pendingSize
  pendingCount := recorded.pendingCount

theorem Accounted.get (accounted : cache.Accounted) : (cache.get key).2.Accounted := by
  rw [MemoryCache.get]
  cases found : cache.value key with
  | none => exact accounted
  | some content =>
    have renewed := @Recorded.renew _ cache key accounted.toRecorded content
    have size : (cache.without key).size + hotCharge content = cache.size := by
      rw [MemoryCache.without, found]
      dsimp only
      omega
    have length : (cache.itemsWithout key ++ [(key, content)]).length ≤ cache.items.length := by
      have removed : (key, content) ∉ cache.itemsWithout key := by
        intro inside
        exact of_decide_eq_true (mem_filter.mp inside).2 rfl
      have fewer : (cache.itemsWithout key).length < cache.items.length := by
        refine length_filter_lt_length_iff_exists.mpr ⟨(key, content), ?_, by simp⟩
        exact (value_eq_some accounted.distinct).mp found
      rw [length_append, length_singleton]
      omega
    dsimp only [MemoryCache.without] at renewed size
    rw [size] at renewed
    refine ⟨renewed, accounted.bytes, ?_⟩
    intro maxSize limited
    exact le_trans (Nat.add_le_add_right length _) (accounted.count maxSize limited)

theorem Accounted.delete (accounted : cache.Accounted) : (cache.delete key).2.Accounted where
  toRecorded := accounted.toRecorded.without
  bytes := by
    have smaller : (cache.without key).size ≤ cache.size := by
      rw [MemoryCache.without]
      cases cache.value key with
      | none => exact Int.le_refl _
      | some previous =>
        dsimp only
        omega
    exact Int.le_trans (Int.add_le_add_right smaller _) accounted.bytes
  count maxSize limited :=
    le_trans (Nat.add_le_add_right (length_filter_le _ _) _)
      (accounted.count maxSize limited)

theorem evictLoop_spec {size : Int} (sum : size = hotSum items) :
    ∃ kept, cache.evictLoop charge count items size = (kept, (hotSum kept : Int)) ∧
      kept.Sublist items ∧ (kept = [] ∨ ¬cache.Exceeds (hotSum kept) kept.length charge count) := by
  induction items generalizing size with
  | nil => exact ⟨[], by rw [evictLoop, sum], .slnil, .inl rfl⟩
  | cons item rest ih =>
    rw [evictLoop]
    split
    case isTrue =>
      have smaller : size - hotCharge item.2 = hotSum rest := by
        rw [sum, hotSum, map_cons, sum_cons, hotSum]
        omega
      obtain ⟨kept, kept_eq, sublist, fits⟩ := ih smaller
      exact ⟨kept, kept_eq, sublist.cons item, fits⟩
    case isFalse fits =>
      rw [sum] at fits ⊢
      exact ⟨item :: rest, rfl, .refl _, .inr fits⟩

def HotOnly (cache after : MemoryCache Key) : Prop :=
  after = { cache with items := after.items, size := after.size }

structure Evicts (charge count : Nat) (cache after : MemoryCache Key) : Prop where
  recorded : after.Recorded
  pending : HotOnly cache after
  kept : after.items.Sublist cache.items
  fits : after.items = [] ∨ ¬cache.Exceeds after.size after.items.length charge count

theorem Recorded.evict (recorded : cache.Recorded) (charge count : Nat) :
    Evicts charge count cache (cache.evict charge count) := by
  obtain ⟨kept, kept_eq, sublist, fits⟩ :=
    @evictLoop_spec _ cache cache.items charge count cache.size recorded.size
  rw [MemoryCache.evict, kept_eq]
  exact ⟨⟨recorded.distinct.sublist (sublist.map Prod.fst), rfl, recorded.named,
    recorded.pendingSize, recorded.pendingCount⟩, rfl, sublist, fits⟩

theorem Evicts.smaller (evicts : Evicts charge count cache after) (recorded : cache.Recorded) :
    after.size ≤ cache.size := by
  have sum : hotSum after.items ≤ hotSum cache.items :=
    (evicts.kept.map fun item : String × Bytes => hotCharge item.2).sum_le_sum
      fun _ _ => Nat.zero_le _
  rw [evicts.recorded.size, recorded.size]
  omega

theorem Recorded.size_nonneg (recorded : cache.Recorded) : 0 ≤ cache.size := by
  rw [recorded.size]
  exact Int.natCast_nonneg _

theorem Evicts.makes_room (evicts : Evicts charge count cache after)
    (bytes : cache.pendingSize + charge ≤ cache.maxBytes)
    (limited : ∀ maxSize ∈ cache.maxSize, cache.pendingCount + count ≤ maxSize) :
    after.size + cache.pendingSize + charge ≤ cache.maxBytes ∧
      ∀ maxSize ∈ cache.maxSize, after.items.length + cache.pendingCount + count ≤ maxSize := by
  cases evicts.fits with
  | inl empty =>
    have none := evicts.recorded.size
    rw [empty] at none ⊢
    refine ⟨by rw [none]; simpa [hotSum] using bytes, ?_⟩
    intro maxSize member
    simpa using limited maxSize member
  | inr fits =>
    obtain ⟨inBytes, inCount⟩ := not_or.mp fits
    refine ⟨Int.not_lt.mp inBytes, ?_⟩
    intro maxSize member
    exact Int.not_lt.mp fun exceeds => inCount ⟨maxSize, member, exceeds⟩

theorem Accounted.put (accounted : cache.Accounted) : (cache.put key content).Accounted := by
  rw [MemoryCache.put]
  split
  case isTrue => exact accounted
  case isFalse fits =>
    have renewed := @Recorded.renew _ cache key accounted.toRecorded content
    have evicts := renewed.evict 0 0
    dsimp only
    generalize ({ cache.without key with
      items := (cache.without key).items ++ [(key, content)]
      size := (cache.without key).size + hotCharge content } : MemoryCache Key).evict 0 0 = after
      at evicts
    have nonneg := accounted.toRecorded.size_nonneg
    have bytes := accounted.bytes
    obtain ⟨inBytes, inCount⟩ := evicts.makes_room
      (by
        dsimp only [MemoryCache.without]
        omega)
      (by
        intro maxSize limited
        have counted := accounted.count maxSize limited
        dsimp only [MemoryCache.without]
        rw [accounted.pendingCount]
        omega)
    have same : after = _ := evicts.pending
    refine ⟨evicts.recorded, ?_, ?_⟩
    · rw [same]
      dsimp only [MemoryCache.without] at inBytes ⊢
      omega
    · intro maxSize limited
      rw [same] at limited ⊢
      have counted := inCount maxSize limited
      dsimp only [MemoryCache.without] at counted ⊢
      rw [accounted.pendingCount] at counted
      omega

theorem get_hotOnly : HotOnly cache (cache.get key).2 := by
  rw [HotOnly, MemoryCache.get]
  cases cache.value key with
  | none => rfl
  | some content => rfl

theorem put_hotOnly : HotOnly cache (cache.put key content) := by
  rw [HotOnly, MemoryCache.put]
  split
  case isTrue => rfl
  case isFalse => rfl

variable {item : String × Bytes}

theorem mem_get (distinct : (cache.items.map Prod.fst).Nodup)
    (member : item ∈ (cache.get key).2.items) : item ∈ cache.items := by
  rw [MemoryCache.get] at member
  cases found : cache.value key with
  | none =>
    rw [found] at member
    exact member
  | some content =>
    rw [found] at member
    cases mem_append.mp member with
    | inl other => exact (mem_filter.mp other).1
    | inr own =>
      rw [mem_singleton.mp own]
      exact (value_eq_some distinct).mp found

theorem mem_without (member : item ∈ (cache.without key).items) :
    item ∈ cache.items ∧ item.1 ≠ key :=
  ⟨(mem_filter.mp member).1, of_decide_eq_true (mem_filter.mp member).2⟩

theorem mem_put (recorded : cache.Recorded) (member : item ∈ (cache.put key content).items) :
    (cache.maxBytes < hotCharge content ∧ item ∈ cache.items) ∨
      (¬cache.maxBytes < hotCharge content ∧
        (item = (key, content) ∨ (item ∈ cache.items ∧ item.1 ≠ key))) := by
  rw [MemoryCache.put] at member
  split at member
  case isTrue large => exact .inl ⟨large, member⟩
  case isFalse fits =>
    have evicts := (@Recorded.renew _ cache key recorded content).evict 0 0
    have before := evicts.kept.subset member
    cases mem_append.mp before with
    | inl other => exact .inr ⟨fits, .inr (mem_without other)⟩
    | inr own => exact .inr ⟨fits, .inl (mem_singleton.mp own)⟩

variable {scope id : String}

theorem pendingAt_eq_some (found : cache.pendingAt scope id = some entry) :
    entry ∈ cache.pending ∧ entry.scope = scope ∧ entry.id = id := by
  have member := mem_of_find?_eq_some found
  have named := find?_some found
  exact ⟨member, of_decide_eq_true named⟩

theorem pendingAt_eq_none (absent : cache.pendingAt scope id = none) :
    ∀ entry ∈ cache.pending, ¬(entry.scope = scope ∧ entry.id = id) := by
  intro entry member named
  exact find?_eq_none.mp absent entry member (decide_eq_true named)

theorem Evicts.bounded (evicts : Evicts charge count cache after)
    (accounted : cache.Accounted) : after.Accounted where
  toRecorded := evicts.recorded
  bytes := by
    have smaller := evicts.smaller accounted.toRecorded
    have bytes := accounted.bytes
    have same : after = _ := evicts.pending
    rw [same]
    dsimp only
    omega
  count maxSize limited := by
    have fewer := evicts.kept.length_le
    have same : after = _ := evicts.pending
    rw [same] at limited ⊢
    have counted := accounted.count maxSize limited
    dsimp only
    omega

/-- What one turn of an append does to the pending entries, and when it blocks. -/
inductive AppendEnds [DecidableEq Key] (entry : PendingEntry Key) (cache : MemoryCache Key) :
    AppendAnswer → MemoryCache Key → Prop
  | conflict {text : String} {previous : PendingEntry Key} (member : previous ∈ cache.pending)
      (named : previous.name = entry.name) (different : previous ≠ entry) :
      AppendEnds entry cache (.conflict text) cache
  | repeated (member : entry ∈ cache.pending) : AppendEnds entry cache .repeated cache
  | admitted {after : MemoryCache Key} (evicts : Evicts (pendingCharge entry.content) 1 cache after)
      (fresh : entry.name ∉ cache.pending.map PendingEntry.name)
      (room : cache.HasRoom (pendingCharge entry.content)) :
      AppendEnds entry cache .admitted (after.withEntry entry)
  | blocked {after : MemoryCache Key} (evicts : Evicts (pendingCharge entry.content) 1 cache after)
      (full : ¬cache.HasRoom (pendingCharge entry.content)) : AppendEnds entry cache .blocked after

theorem HotOnly.hasRoom (hot : HotOnly cache after) (charge : Nat) :
    after.HasRoom charge ↔ cache.HasRoom charge := by
  rw [show after = _ from hot]
  rfl

theorem tryAppend_ends [DecidableEq Key] (recorded : cache.Recorded) (entry : PendingEntry Key) :
    AppendEnds entry cache (cache.tryAppend entry).1 (cache.tryAppend entry).2 := by
  rw [tryAppend]
  cases found : cache.pendingAt entry.scope entry.id with
  | some previous =>
    obtain ⟨member, scope, id⟩ := pendingAt_eq_some found
    dsimp only
    split
    case isTrue different =>
      refine .conflict member (Prod.ext scope id) ?_
      rintro rfl
      exact different rfl
    case isFalse same =>
      have parts := Prod.mk.inj (not_not.mp same)
      have same : previous = entry := by
        cases previous
        cases entry
        dsimp only at scope id parts
        rw [scope, id, parts.1, parts.2]
      exact .repeated (same ▸ member)
  | none =>
    have evicts := recorded.evict (pendingCharge entry.content) 1
    have room := evicts.pending.hasRoom (pendingCharge entry.content)
    dsimp only
    split
    case isTrue fits =>
      refine .admitted evicts ?_ (room.mp fits)
      intro taken
      obtain ⟨other, member, same⟩ := mem_map.mp taken
      exact pendingAt_eq_none found other member (Prod.mk.inj same)
    case isFalse full => exact .blocked evicts fun fits => full (room.mpr fits)

theorem pendingSum_append {left right : List (PendingEntry Key)} :
    pendingSum (left ++ right) = pendingSum left + pendingSum right := by
  rw [pendingSum, map_append, sum_append, pendingSum, pendingSum]

theorem AppendEnds.accounted [DecidableEq Key] (accounted : cache.Accounted)
    (ends : AppendEnds entry cache answer after) : after.Accounted := by
  cases ends with
  | conflict => exact accounted
  | repeated => exact accounted
  | blocked evicts => exact evicts.bounded accounted
  | @admitted evicted evicts fresh room =>
    obtain ⟨inBytes, inCount⟩ := evicts.makes_room room.1 fun maxSize limited =>
      Int.add_one_le_of_lt (room.2 maxSize limited)
    have recorded := evicts.recorded
    have same : evicted = _ := evicts.pending
    refine ⟨⟨recorded.distinct, recorded.size, ?_, ?_, ?_⟩, ?_, ?_⟩
    · rw [same]
      dsimp only [withEntry]
      rw [map_append]
      refine List.Nodup.append accounted.named (nodup_singleton _) ?_
      intro name member own
      exact fresh (mem_singleton.mp own ▸ member)
    · rw [same]
      dsimp only [withEntry]
      rw [pendingSum_append, accounted.pendingSize]
      rfl
    · rw [same]
      dsimp only [withEntry]
      rw [accounted.pendingCount, length_append]
      rfl
    · rw [same]
      dsimp only [withEntry]
      omega
    · intro maxSize limited
      rw [same] at limited ⊢
      have counted := inCount maxSize limited
      dsimp only [withEntry]
      rw [accounted.pendingCount] at counted
      rw [length_append, length_singleton]
      omega

theorem ackOne_pending (cache : MemoryCache Key) : (ackOne scope cache id).pending =
      cache.pending.filter fun other => ¬(other.scope = scope ∧ other.id = id) := by
  rw [ackOne]
  cases found : cache.pendingAt scope id with
  | some entry => rfl
  | none =>
    symm
    rw [filter_eq_self]
    intro entry member
    exact decide_eq_true (pendingAt_eq_none found entry member)

theorem Accounted.ackOne (accounted : cache.Accounted) :
    (MemoryCache.ackOne scope cache id).Accounted := by
  rw [MemoryCache.ackOne]
  cases found : cache.pendingAt scope id with
  | none => exact accounted
  | some entry =>
    obtain ⟨member, rfl, rfl⟩ := pendingAt_eq_some found
    have others : (fun other : PendingEntry Key => decide ¬(other.scope = entry.scope ∧
        other.id = entry.id)) = fun other => decide (other.name ≠ entry.name) := by
      funext other
      rw [decide_eq_decide, PendingEntry.name, PendingEntry.name, ne_eq, Prod.mk.injEq]
    have sum := sum_filter_key (fun entry : PendingEntry Key => pendingCharge entry.content)
      accounted.named member
    have length := sum_filter_key (fun _ : PendingEntry Key => 1) accounted.named member
    rw [map_const', map_const', sum_replicate_nat, sum_replicate_nat,
      mul_one, mul_one] at length
    have size := accounted.pendingSize
    have counted := accounted.pendingCount
    have bytes := accounted.bytes
    rw [pendingSum, sum] at size
    rw [others]
    refine ⟨⟨accounted.distinct, accounted.size,
      accounted.named.sublist (filter_sublist.map _), ?_, ?_⟩, ?_, ?_⟩
    · dsimp only [pendingSum]
      omega
    · dsimp only
      omega
    · dsimp only
      omega
    · intro maxSize limited
      have most := accounted.count maxSize limited
      dsimp only
      omega

variable {ids : List String}

theorem ack_pending : (cache.ack scope ids).2.pending =
      cache.pending.filter fun entry => ¬(entry.scope = scope ∧ entry.id ∈ ids) := by
  have fold : ∀ ids : List String, (ids.foldl (MemoryCache.ackOne scope) cache).pending =
      cache.pending.filter fun entry => ¬(entry.scope = scope ∧ entry.id ∈ ids) := by
    intro ids
    induction ids generalizing cache with
    | nil =>
      symm
      rw [foldl_nil, filter_eq_self]
      intro entry _
      simp
    | cons id rest ih =>
      rw [foldl_cons, ih, ackOne_pending, filter_filter]
      congr 1
      funext entry
      rw [← Bool.decide_and, decide_eq_decide, mem_cons]
      tauto
  rw [ack]
  split
  case isTrue => exact fold ids
  case isFalse absent =>
    symm
    rw [filter_eq_self]
    intro entry member
    exact decide_eq_true fun named => absent ⟨entry, member, named.1⟩

theorem ack_rest :
    (cache.ack scope ids).2.items = cache.items ∧
      (cache.ack scope ids).2.maxBytes = cache.maxBytes ∧
        (cache.ack scope ids).2.maxSize = cache.maxSize := by
  rw [ack]
  split
  case isFalse => exact ⟨rfl, rfl, rfl⟩
  case isTrue =>
    rename_i present
    clear present
    dsimp only
    induction ids generalizing cache with
    | nil => exact ⟨rfl, rfl, rfl⟩
    | cons id rest ih =>
      rw [foldl_cons]
      obtain ⟨items, maxBytes, maxSize⟩ := @ih (MemoryCache.ackOne scope cache id)
      rw [items, maxBytes, maxSize, ackOne]
      cases cache.pendingAt scope id with
      | none => exact ⟨rfl, rfl, rfl⟩
      | some entry => exact ⟨rfl, rfl, rfl⟩

theorem Accounted.ack (accounted : cache.Accounted) : (cache.ack scope ids).2.Accounted := by
  rw [MemoryCache.ack]
  split
  case isFalse => exact accounted
  case isTrue =>
    dsimp only
    clear * - accounted
    induction ids generalizing cache with
    | nil => exact accounted
    | cons id rest ih => exact ih accounted.ackOne

end MemoryCache

end Linktools.Cache
