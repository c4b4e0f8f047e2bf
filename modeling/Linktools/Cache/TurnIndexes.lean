import Linktools.Library.Actions
import Linktools.Library.Checked
import Linktools.Library.Overlay

namespace Linktools.Cache

open Library List Option

/-! The live turns of the in-memory backend: each stored once under its session and found again
by its request and by its execution. -/

/-- The key of a turn, the text of a scope and a session under one tag. -/
abbrev TurnKey := String × String × String

def turnKey (scope sessionKey : String) : TurnKey :=
  ("turn", scope, sessionKey)

structure TurnLease where
  key : TurnKey
  fence : Nat
  token : String
deriving DecidableEq

structure TurnCoordination where
  executionId : String
  ownerId : String
  cancelRequested : Bool
  lease : Option TurnLease := none

structure MemoryTurn where
  scope : String
  sessionKey : String
  requestKey : String
  requestDigest : String
  executionId : String
  ownerId : String
  lease : TurnLease
  expiresAt : Int
  cancelRequested : Bool := false
deriving DecidableEq

namespace MemoryTurn

variable (turn : MemoryTurn)

def coordination (owned : Bool) : TurnCoordination :=
  ⟨turn.executionId, turn.ownerId, turn.cancelRequested, if owned then some turn.lease else none⟩

def request : String × String :=
  (turn.scope, turn.requestKey)

def execution : String × String :=
  (turn.scope, turn.executionId)

end MemoryTurn

structure Turns where
  turns : Table TurnKey MemoryTurn := ∅
  requests : Table (String × String) TurnKey := ∅
  executions : Table (String × String) TurnKey := ∅
  fence : Nat := 0

inductive TurnError
  | valueError (text : String)
  | keyError
  | idempotencyConflict
  | storageConflict (text : String)

abbrev Coordinating := Action Turns TurnError

def requireTurnText (value name : String) : Except TurnError Unit :=
  refuse (value = "") (.valueError (name ++ " must be a nonempty string"))

def requireTurnDuration (leaseSeconds : Int) : Except TurnError Unit :=
  refuse (leaseSeconds ≤ 0) (.valueError "lease_seconds must be finite and positive")

def dropTurn (key : TurnKey) : Coordinating Unit := do
  let turns ← get
  liftM (refuse (key ∉ turns.turns) TurnError.keyError)
  modify fun turns => { turns with turns := turns.turns.erase key }

def dropRequest (request : String × String) : Coordinating Unit := do
  let turns ← get
  liftM (refuse (request ∉ turns.requests) TurnError.keyError)
  modify fun turns => { turns with requests := turns.requests.erase request }

def dropExecution (execution : String × String) : Coordinating Unit := do
  let turns ← get
  liftM (refuse (execution ∉ turns.executions) TurnError.keyError)
  modify fun turns => { turns with executions := turns.executions.erase execution }

def discardTurn (turn : MemoryTurn) : Coordinating Unit := do
  dropTurn turn.lease.key
  dropRequest turn.request
  dropExecution turn.execution

def expireTurns (now : Int) : Coordinating Unit := do
  let turns ← get
  (Table.items turns.turns).forM fun entry =>
    if entry.2.expiresAt ≤ now then discardTurn entry.2 else pure ()

def turnAt (key : TurnKey) : Coordinating MemoryTurn := do
  let turns ← get
  liftM (orRaise (turns.turns.lookup key) TurnError.keyError)

structure TurnClaim where
  scope : String
  sessionKey : String
  requestKey : String
  requestDigest : String
  executionId : String
  ownerId : String
  leaseSeconds : Int

def TurnClaim.check (claim : TurnClaim) : Except TurnError Unit := do
  requireTurnText claim.scope "scope"
  requireTurnText claim.sessionKey "session_key"
  requireTurnText claim.requestKey "request_key"
  requireTurnText claim.requestDigest "request_digest"
  requireTurnText claim.executionId "execution_id"
  requireTurnText claim.ownerId "owner_id"
  requireTurnDuration claim.leaseSeconds

def TurnClaim.turn (claim : TurnClaim) (now : Int) (fence : Nat) (token : String) : MemoryTurn :=
  ⟨claim.scope, claim.sessionKey, claim.requestKey, claim.requestDigest, claim.executionId,
    claim.ownerId, ⟨turnKey claim.scope claim.sessionKey, fence, token⟩,
    now + claim.leaseSeconds, false⟩

def Turns.insert (turns : Turns) (turn : MemoryTurn) : Turns where
  turns := turns.turns.insert turn.lease.key turn
  requests := turns.requests.insert turn.request turn.lease.key
  executions := turns.executions.insert turn.execution turn.lease.key
  fence := turn.lease.fence

def claimTurn (claim : TurnClaim) (now : Int) (token : String) :
    Coordinating (Option TurnCoordination) := do
  liftM claim.check
  expireTurns now
  let turns ← get
  match turns.requests.lookup (claim.scope, claim.requestKey) with
  | some previousKey => do
    let previous ← turnAt previousKey
    liftM (refuse (previous.sessionKey ≠ claim.sessionKey ∨
      previous.requestDigest ≠ claim.requestDigest) TurnError.idempotencyConflict)
    return some (previous.coordination false)
  | none => do
    liftM (refuse ((claim.scope, claim.executionId) ∈ turns.executions)
      (TurnError.storageConflict "execution ID already owns a live turn"))
    if turnKey claim.scope claim.sessionKey ∈ turns.turns then return none
    else do
      let turn := claim.turn now (turns.fence + 1) token
      modify fun turns => turns.insert turn
      return some (turn.coordination true)

def readTurn (scope executionId : String) (now : Int) : Coordinating (Option TurnCoordination) := do
  liftM (requireTurnText scope "scope")
  liftM (requireTurnText executionId "execution_id")
  expireTurns now
  let turns ← get
  match turns.executions.lookup (scope, executionId) with
  | none => return none
  | some key => do
    let turn ← turnAt key
    return some (turn.coordination false)

def readTurnByRequest (scope requestKey : String) (now : Int) :
    Coordinating (Option TurnCoordination) := do
  liftM (requireTurnText scope "scope")
  liftM (requireTurnText requestKey "request_key")
  expireTurns now
  let turns ← get
  match turns.requests.lookup (scope, requestKey) with
  | none => return none
  | some key => do
    let turn ← turnAt key
    return some (turn.coordination false)

def readTurnBySession (scope sessionKey : String) (now : Int) :
    Coordinating (Option TurnCoordination) := do
  liftM (requireTurnText scope "scope")
  liftM (requireTurnText sessionKey "session_key")
  expireTurns now
  let turns ← get
  return (turns.turns.lookup (turnKey scope sessionKey)).map fun turn => turn.coordination false

def renewTurn (lease : TurnLease) (leaseSeconds now : Int) :
    Coordinating (Option TurnCoordination) := do
  liftM (requireTurnDuration leaseSeconds)
  expireTurns now
  let turns ← get
  match turns.turns.lookup lease.key with
  | none => return none
  | some turn =>
    if turn.lease = lease then do
      let renewed := { turn with expiresAt := now + leaseSeconds }
      modify fun turns => { turns with turns := turns.turns.insert lease.key renewed }
      return some (renewed.coordination true)
    else return none

def releaseTurn (lease : TurnLease) (now : Int) : Coordinating Bool := do
  expireTurns now
  let turns ← get
  match turns.turns.lookup lease.key with
  | none => return false
  | some turn =>
    if turn.lease = lease then do
      discardTurn turn
      return true
    else return false

def cancelTurn (scope executionId : String) (now : Int) : Coordinating Bool := do
  liftM (requireTurnText scope "scope")
  liftM (requireTurnText executionId "execution_id")
  expireTurns now
  let turns ← get
  match turns.executions.lookup (scope, executionId) with
  | none => return false
  | some key => do
    let turn ← turnAt key
    modify fun turns =>
      { turns with turns := turns.turns.insert key { turn with cancelRequested := true } }
    return true

structure Indexed (turns : Turns) : Prop where
  keyed : ∀ key turn, turns.turns.lookup key = some turn →
    turn.lease.key = key ∧ key = turnKey turn.scope turn.sessionKey
  requests : ∀ request key, turns.requests.lookup request = some key ↔
    ∃ turn, turns.turns.lookup key = some turn ∧ request = turn.request
  executions : ∀ execution key, turns.executions.lookup execution = some key ↔
    ∃ turn, turns.turns.lookup key = some turn ∧ execution = turn.execution
  fenced : ∀ key turn, turns.turns.lookup key = some turn → turn.lease.fence ≤ turns.fence

open Library.Action

variable {turns live : Turns} {turn other : MemoryTurn} {key : TurnKey} {now : Int}

def Turns.without (turns : Turns) (turn : MemoryTurn) : Turns where
  turns := turns.turns.erase turn.lease.key
  requests := turns.requests.erase turn.request
  executions := turns.executions.erase turn.execution
  fence := turns.fence

theorem Indexed.start : Indexed {} where
  keyed := nofun
  requests _ _ := ⟨nofun, nofun⟩
  executions _ _ := ⟨nofun, nofun⟩
  fenced := nofun

theorem Indexed.of_request (indexed : Indexed turns)
    (found : turns.turns.lookup key = some turn) : turns.requests.lookup turn.request = some key :=
  (indexed.requests turn.request key).mpr ⟨turn, found, rfl⟩

theorem Indexed.of_execution (indexed : Indexed turns)
    (found : turns.turns.lookup key = some turn) :
    turns.executions.lookup turn.execution = some key :=
  (indexed.executions turn.execution key).mpr ⟨turn, found, rfl⟩

variable {table : Table TurnKey MemoryTurn} {Name : Type} {index : Table Name TurnKey}
  {name : MemoryTurn → Name}

theorem index_without [DecidableEq Name] (points : ∀ named key, index.lookup named = some key ↔
      ∃ turn, table.lookup key = some turn ∧ named = name turn)
    (found : table.lookup key = some turn) (named : Name) (other : TurnKey) :
    (index.erase (name turn)).lookup named = some other ↔
      ∃ found, (table.erase key).lookup other = some found ∧ named = name found := by
  have own := (points (name turn) key).mpr ⟨turn, found, rfl⟩
  by_cases same : other = key
  case pos =>
    subst same
    constructor
    · intro pointed
      by_cases here : named = name turn
      case pos =>
        rw [here, AList.lookup_erase] at pointed
        cases pointed
      case neg =>
        rw [AList.lookup_erase_ne here, points] at pointed
        obtain ⟨_, again, name_eq⟩ := pointed
        rw [found, some.injEq] at again
        exact absurd (again ▸ name_eq) here
    · rintro ⟨_, impossible, _⟩
      rw [AList.lookup_erase] at impossible
      cases impossible
  case neg =>
    rw [AList.lookup_erase_ne same]
    by_cases here : named = name turn
    case pos =>
      rw [here, AList.lookup_erase]
      constructor
      · nofun
      · intro pointed
        rw [← points, own, some.injEq] at pointed
        exact absurd pointed.symm same
    case neg => rw [AList.lookup_erase_ne here, points]

theorem Indexed.without (indexed : Indexed turns)
    (found : turns.turns.lookup turn.lease.key = some turn) : Indexed (turns.without turn) where
  keyed key other there := by
    have kept : turns.turns.lookup key = some other := by
      by_cases same : key = turn.lease.key
      case pos =>
        rw [same, Turns.without, AList.lookup_erase] at there
        cases there
      case neg =>
        rw [Turns.without, AList.lookup_erase_ne same] at there
        exact there
    exact indexed.keyed key other kept
  requests := index_without indexed.requests found
  executions := index_without indexed.executions found
  fenced key other there := by
    have kept : turns.turns.lookup key = some other := by
      by_cases same : key = turn.lease.key
      case pos =>
        rw [same, Turns.without, AList.lookup_erase] at there
        cases there
      case neg =>
        rw [Turns.without, AList.lookup_erase_ne same] at there
        exact there
    exact indexed.fenced key other kept

theorem runOn_dropTurn (stored : key ∈ turns.turns) :
    runOn (dropTurn key) turns = (.ok ⟨⟩, { turns with turns := turns.turns.erase key }) := by
  rw [dropTurn, runOn_bind_get, refuse_of_not (not_not.mpr stored)]
  rfl

theorem runOn_dropRequest (stored : request ∈ turns.requests) :
    runOn (dropRequest request) turns =
      (.ok ⟨⟩, { turns with requests := turns.requests.erase request }) := by
  rw [dropRequest, runOn_bind_get, refuse_of_not (not_not.mpr stored)]
  rfl

theorem runOn_dropExecution (stored : execution ∈ turns.executions) :
    runOn (dropExecution execution) turns =
      (.ok ⟨⟩, { turns with executions := turns.executions.erase execution }) := by
  rw [dropExecution, runOn_bind_get, refuse_of_not (not_not.mpr stored)]
  rfl

theorem mem_of_lookup {Name Value : Type} [DecidableEq Name] {table : Table Name Value}
    {name : Name} {value : Value} (found : table.lookup name = some value) : name ∈ table := by
  rw [← AList.lookup_isSome, found]
  rfl

theorem runOn_discardTurn (indexed : Indexed turns)
    (found : turns.turns.lookup turn.lease.key = some turn) :
    runOn (discardTurn turn) turns = (.ok ⟨⟩, turns.without turn) := by
  rw [discardTurn, runOn_bind_of_ok (runOn_dropTurn (mem_of_lookup found))]
  refine Eq.trans (runOn_bind_of_ok (runOn_dropRequest ?_)) (runOn_dropExecution ?_)
  · exact mem_of_lookup (indexed.of_request found)
  · exact mem_of_lookup (indexed.of_execution found)

structure Expired (now : Int) (turns live : Turns) : Prop where
  indexed : Indexed live
  fence : live.fence = turns.fence
  lookup : ∀ key, live.turns.lookup key =
    (turns.turns.lookup key).filter fun turn => decide (now < turn.expiresAt)

theorem expire_loop {entries : List (TurnKey × MemoryTurn)} (indexed : Indexed turns)
    (stored : ∀ entry ∈ entries, turns.turns.lookup entry.1 = some entry.2)
    (distinct : (entries.map Prod.fst).Nodup) : ∃ live, runOn (entries.forM fun entry =>
        if entry.2.expiresAt ≤ now then discardTurn entry.2 else pure ()) turns = (.ok ⟨⟩, live) ∧
      Indexed live ∧ live.fence = turns.fence ∧ ∀ key, live.turns.lookup key =
        if key ∈ entries.map Prod.fst then
          (turns.turns.lookup key).filter fun turn => decide (now < turn.expiresAt)
        else turns.turns.lookup key := by
  induction entries generalizing turns with
  | nil => exact ⟨turns, rfl, indexed, rfl, fun key => rfl⟩
  | cons entry rest ih =>
    rw [map_cons, nodup_cons] at distinct
    have here := stored entry mem_cons_self
    have keyed := (indexed.keyed _ _ here).1
    have later : ∀ other ∈ rest, other.1 ≠ entry.1 := fun other member same =>
      distinct.1 (mem_map.mpr ⟨other, member, same⟩)
    change ∃ live, runOn ((if entry.2.expiresAt ≤ now then discardTurn entry.2 else pure ()) >>=
      fun _ => rest.forM fun entry =>
        if entry.2.expiresAt ≤ now then discardTurn entry.2 else pure ()) turns = _ ∧ _
    by_cases ended : entry.2.expiresAt ≤ now
    case pos =>
      rw [if_pos ended, runOn_bind_of_ok (runOn_discardTurn indexed (keyed ▸ here))]
      have others : ∀ other ≠ entry.1,
          (turns.without entry.2).turns.lookup other = turns.turns.lookup other := by
        intro other different
        rw [Turns.without, keyed, AList.lookup_erase_ne different]
      obtain ⟨live, ran, liveIndexed, fence, lookups⟩ := ih
        (indexed.without (keyed ▸ here))
        (fun other member => by
          rw [others _ (later other member)]
          exact stored other (mem_cons_of_mem _ member)) distinct.2
      refine ⟨live, ran, liveIndexed, fence, ?_⟩
      intro key
      rw [lookups, map_cons]
      by_cases own : key = entry.1
      case pos =>
        have gone : (turns.without entry.2).turns.lookup key = none := by
          rw [Turns.without, keyed, own, AList.lookup_erase]
        rw [own] at gone ⊢
        rw [if_neg distinct.1, if_pos mem_cons_self, gone, here,
          Option.filter_some_neg (by simpa using ended)]
      case neg =>
        rw [others key own]
        simp only [mem_cons, own, false_or]
    case neg =>
      rw [if_neg ended, runOn_bind_of_ok runOn_pure]
      obtain ⟨live, ran, liveIndexed, fence, lookups⟩ := ih indexed
        (fun other member => stored other (mem_cons_of_mem _ member)) distinct.2
      refine ⟨live, ran, liveIndexed, fence, ?_⟩
      intro key
      rw [lookups, map_cons]
      by_cases own : key = entry.1
      case pos =>
        rw [own, if_neg distinct.1, if_pos mem_cons_self, here, filter_some_pos]
        exact decide_eq_true (Int.not_le.mp ended)
      case neg => simp only [mem_cons, own, false_or]

theorem runOn_expireTurns (indexed : Indexed turns) (now : Int) :
    ∃ live, runOn (expireTurns now) turns = (.ok ⟨⟩, live) ∧ Expired now turns live := by
  have stored : ∀ entry ∈ Table.items turns.turns, turns.turns.lookup entry.1 = some entry.2 :=
    fun entry => Table.mem_items.mp
  obtain ⟨live, ran, liveIndexed, fence, lookups⟩ :=
    @expire_loop _ now _ indexed stored Table.nodup_items
  refine ⟨live, ran, liveIndexed, fence, fun key => ?_⟩
  rw [lookups]
  split
  case isTrue => rfl
  case isFalse absent =>
    cases found : turns.turns.lookup key with
    | none => rfl
    | some turn =>
      exact absurd (mem_map.mpr ⟨(key, turn), Table.mem_items.mpr found, rfl⟩) absent

def Live (turns : Turns) (turn : MemoryTurn) : Prop :=
  turns.turns.lookup turn.lease.key = some turn

theorem Indexed.isLive (indexed : Indexed turns) (found : turns.turns.lookup key = some turn) :
    Live turns turn := by
  rw [Live, (indexed.keyed key turn found).1]
  exact found

theorem Expired.live_iff (expired : Expired now turns live) :
    Live live turn ↔ Live turns turn ∧ now < turn.expiresAt := by
  rw [Live, expired.lookup, filter_eq_some_iff, decide_eq_true_iff, Live]

theorem Indexed.eq_of_key (left : Live turns turn) (right : Live turns other)
    (same : turn.lease.key = other.lease.key) : turn = other := by
  rw [Live, same] at left
  rw [Live] at right
  exact some.inj (left.symm.trans right)

theorem Indexed.eq_of_names (indexed : Indexed turns) (left : Live turns turn)
    (right : Live turns other)
    (same : (turn.scope = other.scope ∧ turn.sessionKey = other.sessionKey) ∨
      turn.request = other.request ∨ turn.execution = other.execution) : turn = other := by
  apply Indexed.eq_of_key left right
  obtain ⟨scope, session⟩ | request | execution := same
  · rw [(indexed.keyed _ _ left).2, (indexed.keyed _ _ right).2, scope, session]
  · exact some.inj ((indexed.of_request left).symm.trans
      (request ▸ indexed.of_request right))
  · exact some.inj ((indexed.of_execution left).symm.trans
      (execution ▸ indexed.of_execution right))

theorem index_insert [DecidableEq Name] (points : ∀ named key, index.lookup named = some key ↔
      ∃ turn, table.lookup key = some turn ∧ named = name turn)
    (fresh : index.lookup (name turn) = none) (absent : table.lookup key = none) (named : Name)
    (other : TurnKey) : (index.insert (name turn) key).lookup named = some other ↔
      ∃ found, (table.insert key turn).lookup other = some found ∧ named = name found := by
  by_cases here : named = name turn
  case pos =>
    rw [here, AList.lookup_insert, some.injEq]
    constructor
    · rintro rfl
      exact ⟨turn, AList.lookup_insert _, rfl⟩
    · rintro ⟨found, stored, same⟩
      by_cases own : other = key
      case pos => exact own.symm
      case neg =>
        rw [AList.lookup_insert_ne own] at stored
        have pointed := (points (name turn) other).mpr ⟨found, stored, same⟩
        rw [fresh] at pointed
        cases pointed
  case neg =>
    rw [AList.lookup_insert_ne here, points]
    by_cases own : other = key
    case pos =>
      rw [own, AList.lookup_insert, absent]
      constructor
      · rintro ⟨_, impossible, _⟩
        cases impossible
      · rintro ⟨found, stored, same⟩
        cases stored
        exact absurd same here
    case neg => rw [AList.lookup_insert_ne own]

theorem Indexed.insert (indexed : Indexed turns)
    (keyed : turn.lease.key = turnKey turn.scope turn.sessionKey)
    (session : turns.turns.lookup turn.lease.key = none)
    (request : turns.requests.lookup turn.request = none)
    (execution : turns.executions.lookup turn.execution = none)
    (fence : turns.fence ≤ turn.lease.fence) : Indexed (turns.insert turn) where
  keyed key other found := by
    by_cases own : key = turn.lease.key
    case pos =>
      rw [own, Turns.insert, AList.lookup_insert, some.injEq] at found
      rw [own, ← found]
      exact ⟨rfl, keyed⟩
    case neg =>
      rw [Turns.insert, AList.lookup_insert_ne own] at found
      exact indexed.keyed key other found
  requests := index_insert indexed.requests request session
  executions := index_insert indexed.executions execution session
  fenced key other found := by
    by_cases own : key = turn.lease.key
    case pos =>
      rw [own, Turns.insert, AList.lookup_insert, some.injEq] at found
      rw [← found]
      exact le_refl _
    case neg =>
      rw [Turns.insert, AList.lookup_insert_ne own] at found
      exact le_trans (indexed.fenced key other found) fence

theorem index_replace {index : Name → TurnKey → Prop} (points : ∀ named key, index named key ↔
      ∃ turn, table.lookup key = some turn ∧ named = name turn)
    (found : table.lookup key = some turn) (same : name other = name turn) (named : Name)
    (wanted : TurnKey) : index named wanted ↔
      ∃ found, (table.insert key other).lookup wanted = some found ∧ named = name found := by
  rw [points]
  by_cases own : wanted = key
  case pos =>
    rw [own, AList.lookup_insert, found]
    constructor
    · rintro ⟨_, stored, named_eq⟩
      cases stored
      exact ⟨other, rfl, named_eq.trans same.symm⟩
    · rintro ⟨_, stored, named_eq⟩
      cases stored
      exact ⟨turn, rfl, named_eq.trans same⟩
  case neg => rw [AList.lookup_insert_ne own]

theorem Indexed.replace (indexed : Indexed turns) (found : Live turns turn)
    (lease : other.lease = turn.lease) (scope : other.scope = turn.scope)
    (session : other.sessionKey = turn.sessionKey) (request : other.request = turn.request)
    (execution : other.execution = turn.execution) :
    Indexed { turns with turns := turns.turns.insert turn.lease.key other } where
  keyed key kept stored := by
    by_cases own : key = turn.lease.key
    case pos =>
      rw [own, AList.lookup_insert, some.injEq] at stored
      rw [own, ← stored, lease, scope, session]
      exact ⟨rfl, (indexed.keyed _ _ found).2⟩
    case neg =>
      rw [AList.lookup_insert_ne own] at stored
      exact indexed.keyed key kept stored
  requests := index_replace indexed.requests found request
  executions := index_replace indexed.executions found execution
  fenced key kept stored := by
    by_cases own : key = turn.lease.key
    case pos =>
      rw [own, AList.lookup_insert, some.injEq] at stored
      rw [← stored, lease]
      exact indexed.fenced _ _ found
    case neg =>
      rw [AList.lookup_insert_ne own] at stored
      exact indexed.fenced key kept stored

theorem live_insert (free : turns.turns.lookup turn.lease.key = none) :
    Live (turns.insert turn) other ↔ other = turn ∨ Live turns other := by
  rw [Live, Live, Turns.insert]
  by_cases own : other.lease.key = turn.lease.key
  case pos =>
    rw [own, AList.lookup_insert, free, some.injEq]
    constructor
    · exact fun same => .inl same.symm
    · rintro (same | impossible)
      · exact same.symm
      · cases impossible
  case neg =>
    rw [AList.lookup_insert_ne own]
    constructor
    · exact .inr
    · rintro (same | kept)
      · exact absurd (same ▸ rfl) own
      · exact kept

theorem live_replace (stored : Live turns turn) (lease : changed.lease = turn.lease) :
    Live { turns with turns := turns.turns.insert turn.lease.key changed } other ↔
      other = changed ∨ (Live turns other ∧ other ≠ turn) := by
  rw [Live]
  by_cases own : other.lease.key = turn.lease.key
  case pos =>
    rw [own, AList.lookup_insert, some.injEq]
    constructor
    · exact fun same => .inl same.symm
    · rintro (same | ⟨kept, different⟩)
      · exact same.symm
      · exact absurd (Indexed.eq_of_key kept stored own) different
  case neg =>
    rw [AList.lookup_insert_ne own]
    constructor
    · exact fun kept => .inr ⟨kept, fun same => own (same ▸ rfl)⟩
    · rintro (same | ⟨kept, _⟩)
      · exact absurd (same ▸ congrArg TurnLease.key lease) own
      · exact kept

theorem live_without (stored : Live turns turn) :
    Live (turns.without turn) other ↔ Live turns other ∧ other ≠ turn := by
  rw [Live, Turns.without]
  by_cases own : other.lease.key = turn.lease.key
  case pos =>
    rw [own, AList.lookup_erase]
    constructor
    · nofun
    · rintro ⟨kept, different⟩
      exact absurd (Indexed.eq_of_key kept stored own) different
  case neg =>
    rw [AList.lookup_erase_ne own]
    exact ⟨fun kept => ⟨kept, fun same => own (same ▸ rfl)⟩, And.left⟩

inductive TurnCall
  | claim (claim : TurnClaim) (token : String)
  | read (scope executionId : String)
  | readByRequest (scope requestKey : String)
  | readBySession (scope sessionKey : String)
  | renew (lease : TurnLease) (leaseSeconds : Int)
  | release (lease : TurnLease)
  | cancel (scope executionId : String)

inductive TurnAnswer
  | found (coordination : Option TurnCoordination)
  | settled (done : Bool)

def TurnCall.perform (call : TurnCall) (now : Int) : Coordinating TurnAnswer :=
  match call with
  | .claim wanted token => .found <$> claimTurn wanted now token
  | .read scope executionId => .found <$> readTurn scope executionId now
  | .readByRequest scope requestKey => .found <$> readTurnByRequest scope requestKey now
  | .readBySession scope sessionKey => .found <$> readTurnBySession scope sessionKey now
  | .renew lease leaseSeconds => .found <$> renewTurn lease leaseSeconds now
  | .release lease => .settled <$> releaseTurn lease now
  | .cancel scope executionId => .settled <$> cancelTurn scope executionId now

def TurnCall.Targets (call : TurnCall) (turn : MemoryTurn) : Prop :=
  match call with
  | .claim wanted _ => turn.request = (wanted.scope, wanted.requestKey)
  | .read scope executionId => turn.execution = (scope, executionId)
  | .readByRequest scope requestKey => turn.request = (scope, requestKey)
  | .readBySession scope sessionKey => turn.lease.key = turnKey scope sessionKey
  | .renew lease _ => turn.lease = lease
  | .release lease => turn.lease = lease
  | .cancel scope executionId => turn.execution = (scope, executionId)

section

variable (now : Int) (turns : Turns)

inductive TurnEnds : TurnCall → Except TurnError TurnAnswer → Turns → Prop
  | invalid {call : TurnCall} {text : String} :
      TurnEnds call (.error (.valueError text)) turns
  | refused {claim : TurnClaim} {token : String} {error : TurnError} {live : Turns}
      (expired : Expired now turns live) (conflict : error ≠ .keyError) :
      TurnEnds (.claim claim token) (.error error) live
  | busy {claim : TurnClaim} {token : String} {live : Turns} (expired : Expired now turns live)
      {turn : MemoryTurn} (stored : Live live turn)
      (same : turn.lease.key = turnKey claim.scope claim.sessionKey) :
      TurnEnds (.claim claim token) (.ok (.found none)) live
  | found {call : TurnCall} {live : Turns} (expired : Expired now turns live)
      {turn : MemoryTurn} (stored : Live live turn) (targets : call.Targets turn) :
      TurnEnds call (.ok (.found (some (turn.coordination false)))) live
  | absent {call : TurnCall} {live : Turns} {answer : TurnAnswer} (expired : Expired now turns live)
      (none : ∀ turn, Live live turn → ¬call.Targets turn)
      (negative : answer = .found .none ∨ answer = .settled false) :
      TurnEnds call (.ok answer) live
  | claimed {claim : TurnClaim} {token : String} {live : Turns} (expired : Expired now turns live)
      (session : live.turns.lookup (turnKey claim.scope claim.sessionKey) = none)
      (request : live.requests.lookup (claim.scope, claim.requestKey) = none)
      (execution : live.executions.lookup (claim.scope, claim.executionId) = none) :
      TurnEnds (.claim claim token)
        (.ok (.found (some ((claim.turn now (live.fence + 1) token).coordination true))))
        (live.insert (claim.turn now (live.fence + 1) token))
  | renewed {leaseSeconds : Int} {live : Turns} (expired : Expired now turns live)
      {turn : MemoryTurn} (stored : Live live turn) :
      TurnEnds (.renew turn.lease leaseSeconds)
        (.ok (.found (some
          (({ turn with expiresAt := now + leaseSeconds } : MemoryTurn).coordination true))))
        { live with
          turns := live.turns.insert turn.lease.key { turn with expiresAt := now + leaseSeconds } }
  | released {live : Turns} (expired : Expired now turns live) {turn : MemoryTurn}
      (stored : Live live turn) :
      TurnEnds (.release turn.lease) (.ok (.settled true)) (live.without turn)
  | cancelled {scope executionId : String} {live : Turns} (expired : Expired now turns live)
      {turn : MemoryTurn} (stored : Live live turn)
      (execution : turn.execution = (scope, executionId)) :
      TurnEnds (.cancel scope executionId) (.ok (.settled true))
        { live with
          turns := live.turns.insert turn.lease.key { turn with cancelRequested := true } }

end

theorem runOn_turnAt (found : turns.turns.lookup key = some turn) :
    runOn (turnAt key) turns = (.ok turn, turns) := by
  rw [turnAt, runOn_bind_get, found]
  rfl

def IsValueError (error : TurnError) : Prop :=
  ∃ text, error = .valueError text

theorem requireTurnText_raises {value name : String} :
    RaisesOnly IsValueError (requireTurnText value name) :=
  .refuse ⟨_, rfl⟩

theorem requireTurnDuration_raises : RaisesOnly IsValueError (requireTurnDuration leaseSeconds) :=
  .refuse ⟨_, rfl⟩

theorem TurnClaim.check_raises {claim : TurnClaim} : RaisesOnly IsValueError claim.check :=
  .bind requireTurnText_raises fun _ _ => .bind requireTurnText_raises fun _ _ =>
    .bind requireTurnText_raises fun _ _ => .bind requireTurnText_raises fun _ _ =>
      .bind requireTurnText_raises fun _ _ => .bind requireTurnText_raises fun _ _ =>
        requireTurnDuration_raises

variable {α : Type} {call : TurnCall} {answer : α → TurnAnswer}

def Ends (now : Int) (turns : Turns) (call : TurnCall) (answer : α → TurnAnswer)
    (ran : Except TurnError α × Turns) : Prop :=
  TurnEnds now turns call (answer <$> ran.1) ran.2

theorem ends_of_check {check : Except TurnError Unit} {next : Unit → Coordinating α}
    (raises : RaisesOnly IsValueError check)
    (rest : Ends now turns call answer (runOn (next ()) turns)) :
    Ends now turns call answer (runOn (liftM check >>= next) turns) := by
  cases check with
  | error error =>
    obtain ⟨text, rfl⟩ := raises error rfl
    exact .invalid
  | ok => exact rest

theorem untargeted {call : TurnCall} {lease : TurnLease} {live : Turns}
    (targets : ∀ turn, call.Targets turn → turn.lease = lease)
    (other : ∀ turn, live.turns.lookup lease.key = some turn → turn.lease ≠ lease) :
    ∀ turn, Live live turn → ¬call.Targets turn := by
  intro turn there targeted
  have same := targets turn targeted
  rw [Live, same] at there
  exact other turn there same

theorem Indexed.unexecuted {name : String × String} (indexed : Indexed live)
    (absent : live.executions.lookup name = none) :
    ∀ turn, Live live turn → turn.execution ≠ name := by
  rintro turn stored rfl
  rw [indexed.of_execution stored] at absent
  cases absent

section

variable (indexed : Indexed turns)
include indexed

theorem ends_of_expiry {next : Turns → Coordinating α}
    (rest : ∀ live, Expired now turns live → Ends now turns call answer (runOn (next live) live)) :
    Ends now turns call answer (runOn (expireTurns now >>= fun _ => get >>= next) turns) := by
  obtain ⟨live, ran, expired⟩ := runOn_expireTurns indexed now
  rw [runOn_bind_of_ok ran, runOn_bind_get]
  exact rest live expired

theorem claimTurn_ends (claim : TurnClaim) (now : Int) (token : String) :
    Ends now turns (.claim claim token) .found (runOn (claimTurn claim now token) turns) := by
  rw [claimTurn]
  refine ends_of_check TurnClaim.check_raises (ends_of_expiry indexed fun live expired => ?_)
  cases requested : live.requests.lookup (claim.scope, claim.requestKey) with
  | some previousKey =>
    obtain ⟨previous, stored, named⟩ := (expired.indexed.requests _ _).mp requested
    dsimp only
    rw [runOn_bind_of_ok (runOn_turnAt stored)]
    by_cases different : previous.sessionKey ≠ claim.sessionKey ∨
        previous.requestDigest ≠ claim.requestDigest
    case pos =>
      rw [refuse_of different]
      exact .refused expired nofun
    case neg =>
      rw [refuse_of_not different]
      exact .found expired (expired.indexed.isLive stored) named.symm
  | none =>
    dsimp only
    by_cases executing : (claim.scope, claim.executionId) ∈ live.executions
    case pos =>
      rw [refuse_of executing]
      exact .refused expired nofun
    case neg =>
      rw [refuse_of_not executing, runOn_ok_bind]
      by_cases taken : turnKey claim.scope claim.sessionKey ∈ live.turns
      case pos =>
        rw [if_pos taken]
        obtain ⟨turn, stored⟩ := isSome_iff_exists.mp (AList.lookup_isSome.mpr taken)
        exact .busy expired (expired.indexed.isLive stored) (expired.indexed.keyed _ _ stored).1
      case neg =>
        rw [if_neg taken]
        exact .claimed expired (AList.lookup_eq_none.mpr taken) requested
          (AList.lookup_eq_none.mpr executing)

theorem readTurn_ends (scope executionId : String) (now : Int) :
    Ends now turns (.read scope executionId) .found
      (runOn (readTurn scope executionId now) turns) := by
  rw [readTurn]
  refine ends_of_check requireTurnText_raises (ends_of_check requireTurnText_raises
    (ends_of_expiry indexed fun live expired => ?_))
  cases executed : live.executions.lookup (scope, executionId) with
  | some key =>
    obtain ⟨turn, stored, named⟩ := (expired.indexed.executions _ _).mp executed
    dsimp only
    rw [runOn_bind_of_ok (runOn_turnAt stored)]
    exact .found expired (expired.indexed.isLive stored) named.symm
  | none => exact .absent expired (expired.indexed.unexecuted executed) (.inl rfl)

theorem readTurnByRequest_ends (scope requestKey : String)
    (now : Int) : Ends now turns (.readByRequest scope requestKey) .found
      (runOn (readTurnByRequest scope requestKey now) turns) := by
  rw [readTurnByRequest]
  refine ends_of_check requireTurnText_raises (ends_of_check requireTurnText_raises
    (ends_of_expiry indexed fun live expired => ?_))
  cases requested : live.requests.lookup (scope, requestKey) with
  | some key =>
    obtain ⟨turn, stored, named⟩ := (expired.indexed.requests _ _).mp requested
    dsimp only
    rw [runOn_bind_of_ok (runOn_turnAt stored)]
    exact .found expired (expired.indexed.isLive stored) named.symm
  | none =>
    refine .absent expired ?_ (.inl rfl)
    intro turn stored targets
    have pointed := expired.indexed.of_request stored
    rw [show turn.request = (scope, requestKey) from targets, requested] at pointed
    cases pointed

theorem readTurnBySession_ends (scope sessionKey : String)
    (now : Int) : Ends now turns (.readBySession scope sessionKey) .found
      (runOn (readTurnBySession scope sessionKey now) turns) := by
  rw [readTurnBySession]
  refine ends_of_check requireTurnText_raises (ends_of_check requireTurnText_raises
    (ends_of_expiry indexed fun live expired => ?_))
  cases stored : live.turns.lookup (turnKey scope sessionKey) with
  | some turn =>
    exact .found expired (expired.indexed.isLive stored) (expired.indexed.keyed _ _ stored).1
  | none =>
    have free : ∀ turn, Live live turn →
        ¬(TurnCall.readBySession scope sessionKey).Targets turn := by
      intro turn there targets
      rw [Live, show turn.lease.key = turnKey scope sessionKey from targets, stored] at there
      cases there
    exact .absent expired free (.inl rfl)

theorem renewTurn_ends (lease : TurnLease) (leaseSeconds now : Int) :
    Ends now turns (.renew lease leaseSeconds) .found
      (runOn (renewTurn lease leaseSeconds now) turns) := by
  rw [renewTurn]
  refine ends_of_check requireTurnDuration_raises (ends_of_expiry indexed fun live expired => ?_)
  have none_live := @untargeted (.renew lease leaseSeconds) lease live fun _ => id
  cases stored : live.turns.lookup lease.key with
  | none => exact .absent expired (none_live (by rw [stored]; nofun)) (.inl rfl)
  | some turn =>
    dsimp only
    by_cases own : turn.lease = lease
    case neg =>
      rw [if_neg own]
      refine .absent expired (none_live fun other there => ?_) (.inl rfl)
      rw [stored, some.injEq] at there
      exact there ▸ own
    case pos =>
      rw [if_pos own]
      subst own
      exact .renewed expired stored

theorem releaseTurn_ends (lease : TurnLease) (now : Int) :
    Ends now turns (.release lease) .settled (runOn (releaseTurn lease now) turns) := by
  rw [releaseTurn]
  refine ends_of_expiry indexed fun live expired => ?_
  have none_live := @untargeted (.release lease) lease live fun _ => id
  cases stored : live.turns.lookup lease.key with
  | none => exact .absent expired (none_live (by rw [stored]; nofun)) (.inr rfl)
  | some turn =>
    dsimp only
    by_cases own : turn.lease = lease
    case neg =>
      rw [if_neg own]
      refine .absent expired (none_live fun other there => ?_) (.inr rfl)
      rw [stored, some.injEq] at there
      exact there ▸ own
    case pos =>
      rw [if_pos own]
      subst own
      rw [runOn_bind_of_ok (runOn_discardTurn expired.indexed stored)]
      exact .released expired stored

theorem cancelTurn_ends (scope executionId : String) (now : Int) :
    Ends now turns (.cancel scope executionId) .settled
      (runOn (cancelTurn scope executionId now) turns) := by
  rw [cancelTurn]
  refine ends_of_check requireTurnText_raises (ends_of_check requireTurnText_raises
    (ends_of_expiry indexed fun live expired => ?_))
  cases executed : live.executions.lookup (scope, executionId) with
  | some key =>
    obtain ⟨turn, stored, named⟩ := (expired.indexed.executions _ _).mp executed
    dsimp only
    rw [runOn_bind_of_ok (runOn_turnAt stored)]
    have keyed := (expired.indexed.keyed _ _ stored).1
    subst keyed
    exact .cancelled expired stored named.symm
  | none => exact .absent expired (expired.indexed.unexecuted executed) (.inr rfl)

theorem perform_ends (call : TurnCall) (now : Int) :
    TurnEnds now turns call (runOn (call.perform now) turns).1
      (runOn (call.perform now) turns).2 := by
  cases call with
  | claim claim token =>
    rw [TurnCall.perform, runOn_map]
    exact claimTurn_ends indexed claim now token
  | read scope executionId =>
    rw [TurnCall.perform, runOn_map]
    exact readTurn_ends indexed scope executionId now
  | readByRequest scope requestKey =>
    rw [TurnCall.perform, runOn_map]
    exact readTurnByRequest_ends indexed scope requestKey now
  | readBySession scope sessionKey =>
    rw [TurnCall.perform, runOn_map]
    exact readTurnBySession_ends indexed scope sessionKey now
  | renew lease leaseSeconds =>
    rw [TurnCall.perform, runOn_map]
    exact renewTurn_ends indexed lease leaseSeconds now
  | release lease =>
    rw [TurnCall.perform, runOn_map]
    exact releaseTurn_ends indexed lease now
  | cancel scope executionId =>
    rw [TurnCall.perform, runOn_map]
    exact cancelTurn_ends indexed scope executionId now

end

end Linktools.Cache
