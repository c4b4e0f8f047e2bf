import Linktools.State.MemoryTransaction
import Mathlib.Data.Rat.Floor

namespace Linktools.Turn

open Linktools.Core Library
open State (Failure LeaseOperation datetimeMax)

/-! The three rows of a turn, each found under a key of its own in one scope. -/

abbrev TurnName := String × String

inductive SessionState
  | idle
  | active
deriving DecidableEq

inductive TurnState
  | active
  | retired
deriving DecidableEq

inductive ReceiptKind
  | claim
  | renew
  | cancel
  | release
  | expire
deriving DecidableEq

structure TurnSession where
  scope : String
  sessionKey : String
  executionId : Option String
  requestKey : Option String
  state : SessionState
  storageRevision : Nat
  leaseOwner : Option String
  leaseFence : Nat
  leaseExpiresAt : Option Time
deriving DecidableEq

structure TurnRequest where
  scope : String
  sessionKey : String
  requestKey : String
  requestDigest : String
  executionId : String
  state : TurnState
  storageRevision : Nat
deriving DecidableEq

structure TurnExecution where
  scope : String
  sessionKey : String
  requestKey : String
  requestDigest : String
  executionId : String
  ownerId : String
  token : String
  fence : Nat
  cancelRequested : Bool
  receiptId : String
  receiptKind : ReceiptKind
  state : TurnState
  storageRevision : Nat
deriving DecidableEq

def integrity : Failure := .raised .integrity

/-- `_text` of a stored value. -/
def requireStored (value : String) : Except Failure Unit :=
  refuse (value = "") integrity

namespace TurnSession

variable (row : TurnSession)

def name : TurnName := (row.scope, row.sessionKey)

def Fits : Prop :=
  match row.state with
  | .idle => row.executionId = none ∧ row.requestKey = none ∧ row.leaseOwner = none ∧
      row.leaseExpiresAt = none
  | .active => row.executionId ≠ none ∧ row.requestKey ≠ none ∧ row.leaseOwner ≠ none ∧
      row.leaseOwner ≠ some "" ∧ 1 ≤ row.leaseFence ∧ row.leaseExpiresAt ≠ none

instance : Decidable row.Fits := by
  unfold Fits
  cases row.state <;> infer_instance

def validate : Except Failure Unit := do
  requireStored row.scope
  requireStored row.sessionKey
  refuse (row.executionId = some "" ∨ row.requestKey = some "") integrity
  refuse (¬row.Fits) integrity

def LiveAt (now : Time) : Prop :=
  row.leaseOwner ≠ none ∧ ∃ expiry ∈ row.leaseExpiresAt, now < expiry

instance (now : Time) : Decidable (row.LiveAt now) := by
  unfold LiveAt
  infer_instance

end TurnSession

namespace TurnRequest

variable (row : TurnRequest)

def name : TurnName := (row.scope, row.requestKey)

def validate : Except Failure Unit := do
  requireStored row.scope
  requireStored row.sessionKey
  requireStored row.requestKey
  requireStored row.requestDigest
  requireStored row.executionId

end TurnRequest

namespace TurnExecution

variable (row : TurnExecution)

def name : TurnName := (row.scope, row.executionId)

def Receipted : Prop :=
  (row.state = .active → row.receiptKind ∈ [.claim, .renew, .cancel]) ∧
  (row.state = .retired → row.receiptKind ∈ [.release, .expire]) ∧
  (row.receiptKind = .cancel → row.cancelRequested = true) ∧
  (row.receiptKind = .claim → row.receiptId = row.token ∧ row.cancelRequested = false)

instance : Decidable row.Receipted := by
  unfold Receipted
  infer_instance

def validate : Except Failure Unit := do
  requireStored row.scope
  requireStored row.sessionKey
  requireStored row.requestKey
  requireStored row.requestDigest
  requireStored row.executionId
  requireStored row.ownerId
  requireStored row.token
  requireStored row.receiptId
  refuse (row.fence < 1) integrity
  refuse (¬row.Receipted) integrity

def Bound (request : TurnRequest) : Prop :=
  row.scope = request.scope ∧ row.sessionKey = request.sessionKey ∧
    row.requestKey = request.requestKey ∧ row.requestDigest = request.requestDigest ∧
    row.executionId = request.executionId

instance (request : TurnRequest) : Decidable (row.Bound request) := by
  unfold Bound
  infer_instance

def Runs (session : TurnSession) : Prop :=
  row.scope = session.scope ∧ row.sessionKey = session.sessionKey ∧
    session.requestKey = some row.requestKey ∧ session.executionId = some row.executionId ∧
    session.leaseOwner = some row.token ∧ session.leaseFence = row.fence

instance (session : TurnSession) : Decidable (row.Runs session) := by
  unfold Runs
  infer_instance

end TurnExecution

structure TurnGraph where
  execution : TurnExecution
  request : TurnRequest
  session : TurnSession
deriving DecidableEq

/-- `_TurnRecords.graph`. -/
def turnGraph (execution : TurnExecution) (request : TurnRequest) (session : TurnSession) :
    Except Failure TurnGraph := do
  execution.validate
  request.validate
  session.validate
  refuse (execution.state ≠ .active ∨ request.state ≠ .active ∨ session.state ≠ .active ∨
    ¬execution.Bound request ∨ ¬execution.Runs session) integrity
  return ⟨execution, request, session⟩

structure TurnStore where
  sessions : Table TurnName TurnSession := ∅
  requests : Table TurnName TurnRequest := ∅
  executions : Table TurnName TurnExecution := ∅

namespace TurnStore

variable (store : TurnStore)

def loadSession (name : TurnName) : Except Failure (Option TurnSession) :=
  match store.sessions.lookup name with
  | none => return none
  | some row => do
    row.validate
    return some row

def loadRequest (name : TurnName) : Except Failure (Option TurnRequest) :=
  match store.requests.lookup name with
  | none => return none
  | some row => do
    row.validate
    return some row

def loadExecution (name : TurnName) : Except Failure (Option TurnExecution) :=
  match store.executions.lookup name with
  | none => return none
  | some row => do
    row.validate
    return some row

def insertSession (row : TurnSession) : Except Failure TurnStore := do
  refuse (store.sessions.lookup row.name ≠ none) .conflict
  return { store with sessions := store.sessions.insert row.name row }

def insertRequest (row : TurnRequest) : Except Failure TurnStore := do
  refuse (store.requests.lookup row.name ≠ none) .conflict
  return { store with requests := store.requests.insert row.name row }

def insertExecution (row : TurnExecution) : Except Failure TurnStore := do
  refuse (store.executions.lookup row.name ≠ none) .conflict
  return { store with executions := store.executions.insert row.name row }

def replaceSession (row : TurnSession) (expected : Nat) : Except Failure TurnStore := do
  refuse ((store.sessions.lookup row.name).map (·.storageRevision) ≠ some expected) .conflict
  return { store with sessions := store.sessions.insert row.name row }

def replaceRequest (row : TurnRequest) (expected : Nat) : Except Failure TurnStore := do
  refuse ((store.requests.lookup row.name).map (·.storageRevision) ≠ some expected) .conflict
  return { store with requests := store.requests.insert row.name row }

def replaceExecution (row : TurnExecution) (expected : Nat) : Except Failure TurnStore := do
  refuse ((store.executions.lookup row.name).map (·.storageRevision) ≠ some expected) .conflict
  return { store with executions := store.executions.insert row.name row }

end TurnStore

structure LeaseChange where
  operation : LeaseOperation
  owner : Option String
  fence : Nat
  duration : Option Int := none

namespace LeaseChange

variable (change : LeaseChange) (row : TurnSession) (now : Time)

def Refuses : Prop :=
  let live := row.leaseOwner ≠ none ∧ row.leaseExpiresAt.all fun expiry => now < expiry
  if change.operation.NeedsAvailable then
    live ∨ change.operation = .guardAvailable ∧ row.leaseOwner ≠ change.owner
  else ¬live ∨ row.leaseOwner ≠ change.owner ∨ row.leaseExpiresAt = none

instance : Decidable (change.Refuses row now) := by
  unfold Refuses
  infer_instance

def leased : TurnSession :=
  { row with
    storageRevision := row.storageRevision + 1
    leaseOwner := if change.operation = .release then none else change.owner
    leaseFence := change.fence + if change.operation = .acquire then 1 else 0
    leaseExpiresAt := change.duration.map fun duration => now + duration }

def apply : Except Failure (Option TurnSession) :=
  if row.leaseFence ≠ change.fence then .ok none
  else if change.Refuses row now then .ok none
  else if change.operation.Guards then
    .ok (some { row with storageRevision := row.storageRevision + 1 })
  else if change.duration.any fun duration => datetimeMax < now + duration then
    .error .overflowError
  else .ok (some (change.leased row now))

end LeaseChange

/-- `transition_record_lease` of a session at the instant that the store reads. -/
def TurnStore.transition (store : TurnStore) (name : TurnName) (expected : Nat)
    (change : LeaseChange) (now : Time) : Except Failure (Option TurnSession × TurnStore) :=
  match store.sessions.lookup name with
  | none => return (none, store)
  | some current =>
    if current.storageRevision ≠ expected then return (none, store)
    else do
      match ← change.apply current now with
      | none => return (none, store)
      | some candidate =>
        return (some candidate, { store with
          sessions := store.sessions.insert name candidate })

open State (Failure LeaseOperation)

/-- The text of a lease key, of which the authority reads only its own. -/
inductive LeaseKey
  | turn (scope executionId : String)
  | foreign (text : String)
deriving DecidableEq

structure TurnLease where
  key : LeaseKey
  fence : Nat
  token : String
deriving DecidableEq

structure TurnCoordination where
  executionId : String
  ownerId : String
  cancelRequested : Bool
  lease : Option TurnLease := none
deriving DecidableEq

def requireText (value : String) : Except Failure Unit :=
  refuse (value = "") (.valueError "turn identities must be nonempty strings")

/-- `_duration`, in microseconds: the seconds round up to a millisecond. -/
def leaseDuration (seconds : Rat) : Except Failure Int := do
  refuse (seconds ≤ 0) (.valueError "turn lease must be finite and positive")
  refuse ((2 ^ 52 : Rat) / 1000 < seconds) (.valueError "turn lease exceeds timestamp precision")
  return ⌈seconds * 1000⌉ * 1000

def TurnExecution.lease (row : TurnExecution) : TurnLease :=
  ⟨.turn row.scope row.executionId, row.fence, row.token⟩

namespace TurnGraph

variable (graph : TurnGraph)

/-- `_coordination`. -/
def coordination (owned : Bool) : TurnCoordination where
  executionId := graph.execution.executionId
  ownerId := graph.execution.ownerId
  cancelRequested := graph.execution.cancelRequested
  lease := if owned then some graph.execution.lease else none

def retiredExecution (receipt : String) (kind : ReceiptKind) : TurnExecution :=
  { graph.execution with
    storageRevision := graph.execution.storageRevision + 1
    state := .retired
    receiptId := receipt
    receiptKind := kind }

def retiredRequest : TurnRequest :=
  { graph.request with
    storageRevision := graph.request.storageRevision + 1
    state := .retired }

def retiredSession : TurnSession :=
  { graph.session with
    storageRevision := graph.session.storageRevision + 1
    state := .idle
    leaseOwner := none
    leaseExpiresAt := none
    executionId := none
    requestKey := none }

end TurnGraph

namespace TurnStore

variable (store : TurnStore)

/-- `_graph`, from the names that its anchor gives. -/
def graphAt (execution request session : TurnName) : Except Failure TurnGraph := do
  let execution ← orRaise (store.executions.lookup execution) integrity
  let request ← orRaise (store.requests.lookup request) integrity
  let session ← orRaise (store.sessions.lookup session) integrity
  turnGraph execution request session

def executionGraph (row : TurnExecution) : Except Failure TurnGraph :=
  store.graphAt row.name (row.scope, row.requestKey) (row.scope, row.sessionKey)

def requestGraph (row : TurnRequest) : Except Failure TurnGraph :=
  store.graphAt (row.scope, row.executionId) row.name (row.scope, row.sessionKey)

def sessionGraph (row : TurnSession) : Except Failure TurnGraph := do
  let executionId ← orRaise row.executionId integrity
  let requestKey ← orRaise row.requestKey integrity
  store.graphAt (row.scope, executionId) (row.scope, requestKey) row.name

/-- The anchor of a retired request: the execution that it ended with. -/
def requireRetired (row : TurnRequest) : Except Failure Unit := do
  let execution ← store.loadExecution (row.scope, row.executionId)
  let execution ← orRaise execution integrity
  refuse (execution.state ≠ .retired ∨ ¬execution.Bound row) integrity

/-- `_retire`. -/
def retire (graph : TurnGraph) (receipt : String) (kind : ReceiptKind) :
    Except Failure TurnStore := do
  (graph.retiredExecution receipt kind).validate
  graph.retiredRequest.validate
  graph.retiredSession.validate
  let store ← store.replaceExecution (graph.retiredExecution receipt kind)
    graph.execution.storageRevision
  let store ← store.replaceRequest graph.retiredRequest graph.request.storageRevision
  store.replaceSession graph.retiredSession graph.session.storageRevision

end TurnStore

structure TurnClaim where
  scope : String
  sessionKey : String
  requestKey : String
  requestDigest : String
  executionId : String
  ownerId : String
  leaseSeconds : Rat

namespace TurnClaim

variable (claim : TurnClaim)

def check : Except Failure Int := do
  requireText claim.scope
  requireText claim.sessionKey
  requireText claim.requestKey
  requireText claim.requestDigest
  requireText claim.executionId
  requireText claim.ownerId
  leaseDuration claim.leaseSeconds

def session : TurnName := (claim.scope, claim.sessionKey)

def request : TurnName := (claim.scope, claim.requestKey)

def execution : TurnName := (claim.scope, claim.executionId)

/-- The row of a session that nobody has claimed, or that is claimed at once. -/
def sessionRow (state : SessionState) (executionId requestKey : Option String) : TurnSession where
  scope := claim.scope
  sessionKey := claim.sessionKey
  executionId := executionId
  requestKey := requestKey
  state := state
  storageRevision := 0
  leaseOwner := none
  leaseFence := 0
  leaseExpiresAt := none

def requestRow (revision : Nat) : TurnRequest where
  scope := claim.scope
  sessionKey := claim.sessionKey
  requestKey := claim.requestKey
  requestDigest := claim.requestDigest
  executionId := claim.executionId
  state := .active
  storageRevision := revision

def executionRow (token : String) (fence revision : Nat) : TurnExecution where
  scope := claim.scope
  sessionKey := claim.sessionKey
  requestKey := claim.requestKey
  requestDigest := claim.requestDigest
  executionId := claim.executionId
  ownerId := claim.ownerId
  token := token
  fence := fence
  cancelRequested := false
  receiptId := token
  receiptKind := .claim
  state := .active
  storageRevision := revision

/-- An execution that was recorded for something else, or by this owner. -/
def Disagrees (row : TurnExecution) : Prop :=
  row.sessionKey ≠ claim.sessionKey ∨ row.requestKey ≠ claim.requestKey ∨
    row.requestDigest ≠ claim.requestDigest ∨ row.ownerId = claim.ownerId

instance (row : TurnExecution) : Decidable (claim.Disagrees row) := by
  unfold Disagrees
  infer_instance

end TurnClaim

/-- The instants at which a transaction reads the clock of the store.  A claim looks at the lease
of a session before it guards it, its own session and that of its request in either order. -/
structure TurnInstants where
  ownLook : Time
  ownGuard : Time
  otherLook : Time
  otherGuard : Time
  change : Time

/-- A session that a claim guards, with what the look at its lease said. -/
structure GuardedSession where
  row : TurnSession
  live : Bool

namespace TurnStore

variable (store : TurnStore)

def acquire (row : TurnSession) (token : String) (duration : Int) (now : Time) :
    Except Failure (TurnSession × TurnStore) := do
  let (acquired, store) ← store.transition row.name row.storageRevision
    ⟨.acquire, some token, row.leaseFence, some duration⟩ now
  let acquired ← orRaise acquired .conflict
  return (acquired, store)

/-- The claim of a session, a request and an execution that nobody has named yet. -/
def claimFirst (claim : TurnClaim) (token : String) (duration : Int) (now : Time) :
    Except Failure (Option TurnCoordination × TurnStore) := do
  let session := claim.sessionRow .active (some claim.executionId) (some claim.requestKey)
  let execution := claim.executionRow token 1 0
  let request := claim.requestRow 0
  let store ← store.insertSession session
  let store ← store.insertExecution execution
  let store ← store.insertRequest request
  let (acquired, store) ← store.acquire session token duration now
  let graph ← turnGraph execution request acquired
  return (some (graph.coordination true), store)

def guardSession (row : TurnSession) (look now : Time) :
    Except Failure (GuardedSession × TurnStore) := do
  let live := decide (row.LiveAt look)
  let (guarded, store) ← store.transition row.name row.storageRevision
    ⟨if live then .guard else .guardAvailable, row.leaseOwner, row.leaseFence, none⟩ now
  let guarded ← orRaise guarded .conflict
  return (⟨guarded, live⟩, store)

def guardSome (row : Option TurnSession) (look now : Time) :
    Except Failure (Option GuardedSession × TurnStore) :=
  match row with
  | none => return (none, store)
  | some row => do
    let (guarded, store) ← store.guardSession row look now
    return (some guarded, store)

def sessionAnchor (session : Option TurnSession) : Except Failure (Option TurnGraph) :=
  match session with
  | none => return none
  | some row =>
    match row.state with
    | .idle => return none
    | .active => some <$> store.sessionGraph row

def requestAnchor (request : Option TurnRequest) : Except Failure (Option TurnGraph) :=
  match request with
  | none => return none
  | some row =>
    match row.state with
    | .active => some <$> store.requestGraph row
    | .retired => do
      store.requireRetired row
      return none

end TurnStore

/-- The graph of a request that stands in another session than the claimed one. -/
def TurnClaim.elsewhere (claim : TurnClaim) (graph : Option TurnGraph) : Option TurnGraph :=
  graph.filter fun graph => graph.session.sessionKey ≠ claim.sessionKey

/-- What a claim answers without a grant: the live turn of its request, or nothing while the
session is live for another one. -/
def TurnClaim.observed (claim : TurnClaim) (request : Option TurnGraph)
    (own other : Option GuardedSession) : Except Failure (Option (Option TurnCoordination)) :=
  match request with
  | some graph => do
    let guarded ← orRaise (if graph.session.sessionKey = claim.sessionKey then own else other)
      integrity
    if guarded.live then do
      refuse (graph.request.sessionKey ≠ claim.sessionKey ∨
        graph.request.requestDigest ≠ claim.requestDigest)
        (Failure.raised (.ai .idempotencyConflict))
      return some (some (graph.coordination false))
    else return if own.any (·.live) then some none else none
  | none => return if own.any (·.live) then some none else none

namespace TurnStore

variable (store : TurnStore)

def retireExpired (graph : Option TurnGraph) (guarded : Option GuardedSession)
    (receipt : String) : Except Failure TurnStore :=
  match graph with
  | none => return store
  | some graph => do
    let guarded ← orRaise guarded integrity
    refuse (guarded.live = true) integrity
    store.retire { graph with session := guarded.row } receipt .expire

def idleSession (claim : TurnClaim) (guarded : Option GuardedSession) (graph : Option TurnGraph) :
    Except Failure (TurnSession × TurnStore) :=
  match guarded with
  | none => do
    let row := claim.sessionRow .idle none none
    let store ← store.insertSession row
    return (row, store)
  | some guarded =>
    match graph with
    | none => return (guarded.row, store)
    | some graph => return ({ graph with session := guarded.row }.retiredSession, store)

def writeExecution (claim : TurnClaim) (proposed : Option TurnExecution) (token : String)
    (fence : Nat) : Except Failure (TurnExecution × TurnStore) :=
  match proposed with
  | none => do
    let row := claim.executionRow token fence 0
    let store ← store.insertExecution row
    return (row, store)
  | some _ => do
    let previous ← store.loadExecution claim.execution
    match previous with
    | none => do
      let row := claim.executionRow token fence 0
      let store ← store.insertExecution row
      return (row, store)
    | some previous => do
      let row := claim.executionRow token fence (previous.storageRevision + 1)
      let store ← store.replaceExecution row previous.storageRevision
      return (row, store)

def writeRequest (claim : TurnClaim) : Except Failure (TurnRequest × TurnStore) := do
  let previous ← store.loadRequest claim.request
  match previous with
  | none => do
    let row := claim.requestRow 0
    let store ← store.insertRequest row
    return (row, store)
  | some previous => do
    let row := claim.requestRow (previous.storageRevision + 1)
    let store ← store.replaceRequest row previous.storageRevision
    return (row, store)

def grant (claim : TurnClaim) (session : TurnSession) (proposed : Option TurnExecution)
    (token : String) (duration : Int) (now : Time) :
    Except Failure (TurnCoordination × TurnStore) := do
  let (acquired, store) ← store.acquire session token duration now
  let (execution, store) ← store.writeExecution claim proposed token acquired.leaseFence
  let (request, store) ← store.writeRequest claim
  let row := { acquired with
    state := .active
    executionId := some claim.executionId
    requestKey := some claim.requestKey
    storageRevision := acquired.storageRevision + 1 }
  let store ← store.replaceSession row acquired.storageRevision
  let graph ← turnGraph execution request row
  return (graph.coordination true, store)

/-- A claim of a session, a request or an execution that is already recorded. -/
def claimAgain (claim : TurnClaim) (token : String) (duration : Int) (instants : TurnInstants)
    (session : Option TurnSession) (request : Option TurnRequest)
    (proposed : Option TurnExecution) : Except Failure (Option TurnCoordination × TurnStore) := do
  let ownGraph ← store.sessionAnchor session
  let requestGraph ← store.requestAnchor request
  let otherGraph := claim.elsewhere requestGraph
  let (own, store) ← store.guardSome session instants.ownLook instants.ownGuard
  let (other, store) ← store.guardSome (otherGraph.map (·.session)) instants.otherLook
    instants.otherGuard
  match ← claim.observed requestGraph own other with
  | some answer => return (answer, store)
  | none => do
    refuse (∃ row ∈ proposed, claim.Disagrees row) Failure.conflict
    let store ← store.retireExpired ownGraph own token
    let store ← store.retireExpired otherGraph other token
    let (idle, store) ← store.idleSession claim own ownGraph
    let (granted, store) ← store.grant claim idle proposed token duration instants.change
    return (some granted, store)

/-- The transaction of `claim_turn`. -/
def claimTurn (claim : TurnClaim) (token : String) (instants : TurnInstants) :
    Except Failure (Option TurnCoordination × TurnStore) := do
  let duration ← claim.check
  let session ← store.loadSession claim.session
  let request ← store.loadRequest claim.request
  let proposed ← store.loadExecution claim.execution
  if session = none ∧ request = none ∧ proposed = none then
    store.claimFirst claim token duration instants.change
  else store.claimAgain claim token duration instants session request proposed

/-- `_lease_identity`. -/
def leaseIdentity (lease : TurnLease) : Option (String × String) :=
  if lease.fence < 1 ∨ lease.token = "" then none
  else
    match lease.key with
    | .turn scope executionId =>
      if scope = "" ∨ executionId = "" then none else some (scope, executionId)
    | .foreign _ => none

/-- The execution row is active and under the lease, when there is one. -/
def Holds (lease : Option TurnLease) (row : TurnExecution) : Prop :=
  row.state = .active ∧ ∀ held ∈ lease, row.token = held.token ∧ row.fence = held.fence

instance (lease : Option TurnLease) (row : TurnExecution) : Decidable (Holds lease row) := by
  unfold Holds
  infer_instance

def changeGraph (name : TurnName) (lease : Option TurnLease)
    (operation : LeaseOperation) (duration : Option Int) (now : Time) :
    Except Failure (Option TurnGraph × TurnStore) := do
  match ← store.loadExecution name with
  | none => return (none, store)
  | some execution =>
    if Holds lease execution then do
      let graph ← store.executionGraph execution
      let (session, store) ← store.transition graph.session.name graph.session.storageRevision
        ⟨operation, graph.session.leaseOwner, graph.session.leaseFence, duration⟩ now
      return (session.map fun session => { graph with session }, store)
    else return (none, store)

def writeReceipt (graph : TurnGraph) (receipt : String) (kind : ReceiptKind) :
    Except Failure (TurnGraph × TurnStore) := do
  let execution := { graph.execution with
    storageRevision := graph.execution.storageRevision + 1
    receiptId := receipt
    receiptKind := kind
    cancelRequested := decide (kind = .cancel) || graph.execution.cancelRequested }
  let store ← store.replaceExecution execution graph.execution.storageRevision
  let graph ← turnGraph execution graph.request graph.session
  return (graph, store)

/-- The transaction of `renew_turn`. -/
def renewTurn (lease : TurnLease) (leaseSeconds : Rat) (receipt : String) (now : Time) :
    Except Failure (Option TurnCoordination × TurnStore) := do
  let duration ← leaseDuration leaseSeconds
  match leaseIdentity lease with
  | none => return (none, store)
  | some name => do
    let (graph, store) ← store.changeGraph name (some lease) .renew (some duration) now
    match graph with
    | none => return (none, store)
    | some graph => do
      let (graph, store) ← store.writeReceipt graph receipt .renew
      return (some (graph.coordination true), store)

/-- The transaction of `release_turn`. -/
def releaseTurn (lease : TurnLease) (receipt : String) (now : Time) :
    Except Failure (Bool × TurnStore) :=
  match leaseIdentity lease with
  | none => return (false, store)
  | some name => do
    let (graph, store) ← store.changeGraph name (some lease) .guard none now
    match graph with
    | none => return (false, store)
    | some graph => do
      let store ← store.retire graph receipt .release
      return (true, store)

/-- The transaction of `cancel_turn`. -/
def cancelTurn (scope executionId : String) (receipt : String) (now : Time) :
    Except Failure (Bool × TurnStore) := do
  requireText scope
  requireText executionId
  let (graph, store) ← store.changeGraph (scope, executionId) none .guard none now
  match graph with
  | none => return (false, store)
  | some graph => do
    let (_, store) ← store.writeReceipt graph receipt .cancel
    return (true, store)

/-- The graph that an active row leads to, found through its execution. -/
def validateEdges (execution : Option TurnExecution) : Except Failure Unit := do
  let execution ← orRaise execution integrity
  let request ← orRaise (store.requests.lookup (execution.scope, execution.requestKey)) integrity
  let session ← orRaise (store.sessions.lookup (execution.scope, execution.sessionKey)) integrity
  let _ ← turnGraph execution request session

def validateSession (row : TurnSession) : Except Failure Unit :=
  match row.state with
  | .idle => return
  | .active => do
    let executionId ← orRaise row.executionId integrity
    store.validateEdges (store.executions.lookup (row.scope, executionId))

def validateRequest (row : TurnRequest) : Except Failure Unit :=
  match row.state with
  | .active => store.validateEdges (store.executions.lookup (row.scope, row.executionId))
  | .retired => do
    let execution ← orRaise (store.executions.lookup (row.scope, row.executionId)) integrity
    refuse (execution.state ≠ .retired ∨ ¬execution.Bound row) integrity

def validateExecution (row : TurnExecution) : Except Failure Unit :=
  match row.state with
  | .active => store.validateEdges (some row)
  | .retired => return

/-- `validate_turn_records`. -/
def validate : Except Failure Unit := do
  (Table.items store.sessions).forM fun entry => entry.2.validate
  (Table.items store.requests).forM fun entry => entry.2.validate
  (Table.items store.executions).forM fun entry => entry.2.validate
  (Table.items store.sessions).forM fun entry => store.validateSession entry.2
  (Table.items store.requests).forM fun entry => store.validateRequest entry.2
  (Table.items store.executions).forM fun entry => store.validateExecution entry.2

end TurnStore

end Linktools.Turn
