import Linktools.Library.Machine
import Mathlib.Data.List.Infix

namespace Linktools.Cache

open Library

/-! One owner's batch writes over a borrowed buffer: admissions, the writer task that takes
their prefix in batches, and the close. The code between two awaits is one step. -/

abbrev Payload := Option (List UInt8)

/-- A `WriteBufferEntry`; its id is a fresh `uuid4`. -/
structure Entry (Key : Type) where
  id : Nat
  key : Key
  content : Payload
deriving DecidableEq

/-- The call of `append` that holds the admission lock. -/
structure Admission (Key : Type) where
  entry : Entry Key
  published : Bool := false

inductive Writer (Key : Type)
  | absent
  | looping
  | reading (limit : Nat)
  | writing (batch : List (Entry Key))
  | acking (batch : List (Entry Key))
  | finished (failed : Bool)

/-- Where the close task is; `failed` is a close that has raised because the buffer could not
release its entries. -/
inductive Closing (Key : Type)
  | unasked
  | waiting
  | draining
  | releasing
  | acking (batch : List (Entry Key))
  | closed
  | failed

/-- What an observer has seen of a scope: the entries in the order of their admission, those
handed to the sink, and those that have been settled. -/
structure Observed (Key : Type) where
  admitted : List (Entry Key) := []
  handed : List (Entry Key) := []
  confirmed : List (Entry Key) := []
  unconfirmed : List (Entry Key) := []

structure BatchScope (Key : Type) where
  scheduled : Bool := false
  accepting : Bool := true
  stopRequested : Bool := false
  accepted : Nat := 0
  confirmed : Nat := 0
  unconfirmed : Nat := 0
  settled : Nat := 0
  rejected : Nat := 0
  writeFailures : Nat := 0
  highWatermark : Nat := 0
  lastFailureCode : Option String := none
  flushTarget : Nat := 0
  backendFailure : Bool := false
  unknown : List (Entry Key) := []
  admission : Option (Admission Key) := none
  writer : Writer Key := .absent
  closing : Closing Key := .unasked
  queue : List (Entry Key) := []
  observed : Observed Key := {}

/-- The lifetime counts that `status` reports. -/
structure BatchWriteStatus where
  accepting : Bool
  accepted : Nat
  confirmed : Nat
  unconfirmed : Nat
  pending : Int
  rejected : Nat
  queueSize : Int
  highWatermark : Nat
  writeFailures : Nat
  lastFailureCode : Option String

namespace BatchScope

variable {Key : Type} (scope : BatchScope Key)

def status : BatchWriteStatus where
  accepting := scope.accepting
  accepted := scope.accepted
  confirmed := scope.confirmed
  unconfirmed := scope.unconfirmed
  pending := scope.accepted - scope.confirmed - scope.unconfirmed
  rejected := scope.rejected
  queueSize := scope.accepted - scope.settled
  highWatermark := scope.highWatermark
  writeFailures := scope.writeFailures
  lastFailureCode := scope.lastFailureCode

/-- `_stop_accepting`; what the cancelled call of `append` answers is left to its own step. -/
def stopAccepting : BatchScope Key := { scope with accepting := false, scheduled := false }

/-- `_backend_failed`. -/
def backendFailed : BatchScope Key :=
  { scope.stopAccepting with
    backendFailure := true
    lastFailureCode := some "CACHE_OPERATION_FAILED"
    stopRequested := true }

/-- `_reject`. -/
def reject (code : String) : BatchScope Key :=
  { scope with rejected := scope.rejected + 1, lastFailureCode := some code }

/-- The answer of `append` that admits the entry. -/
def admitted (entry : Entry Key) : BatchScope Key :=
  { scope with
    accepted := scope.accepted + 1
    highWatermark := max scope.highWatermark (scope.accepted + 1 - scope.settled)
    admission := none
    writer := match scope.writer with
      | .absent => .looping
      | writer => writer
    observed := { scope.observed with admitted := scope.observed.admitted ++ [entry] } }

/-- `_request_flush`. -/
def requestFlush (target : Nat) : BatchScope Key :=
  { scope with flushTarget := max scope.flushTarget target }

def noteFailure (code : String) : Option String :=
  if scope.lastFailureCode = some "CLOSE_TIMEOUT" ∨ scope.lastFailureCode = some "CLOSE_FAILED"
  then scope.lastFailureCode else some code

def pending : Nat := scope.accepted - scope.settled

def batchLimit (batchSize : Nat) : Nat :=
  let limit := min scope.pending batchSize
  if scope.scheduled then min limit (scope.flushTarget - scope.settled) else limit

/-- `ack`, which releases only the listed entries. -/
def acknowledge (batch : List (Entry Key)) : List (Entry Key) :=
  scope.queue.filter fun entry => entry.id ∉ batch.map (·.id)

/-- A call of `ack` that raises may have released the entries. -/
def Released (batch queue : List (Entry Key)) : Prop :=
  queue = scope.queue ∨ queue = scope.acknowledge batch

def hand (batch : List (Entry Key)) : BatchScope Key :=
  { scope with
    writer := .writing batch
    observed := { scope.observed with handed := scope.observed.handed ++ batch } }

def confirm (batch : List (Entry Key)) : BatchScope Key :=
  { scope with
    confirmed := scope.confirmed + batch.length
    writer := .acking batch
    observed := { scope.observed with confirmed := scope.observed.confirmed ++ batch } }

/-- `_write_failed`. -/
def writeFailed (batch : List (Entry Key)) (code : String) : BatchScope Key :=
  { scope with
    writeFailures := scope.writeFailures + 1
    unconfirmed := scope.unconfirmed + batch.length
    lastFailureCode := scope.noteFailure code
    writer := .acking batch
    observed := { scope.observed with unconfirmed := scope.observed.unconfirmed ++ batch } }

/-- The entries of a released batch whose admission was never answered. -/
def unknownIn (batch : List (Entry Key)) : List (Entry Key) :=
  scope.unknown.filter fun entry => entry.id ∈ batch.map (·.id)

/-- A batch of the tail is released; unanswered entries are counted only now. -/
def release (batch : List (Entry Key)) : BatchScope Key :=
  { scope with
    queue := scope.acknowledge batch
    accepted := scope.accepted + (scope.unknownIn batch).length
    unconfirmed := scope.unconfirmed + (scope.unknownIn batch).length
    unknown := scope.unknown.filter fun entry => entry.id ∉ batch.map (·.id)
    closing := .releasing
    observed := { scope.observed with
      admitted := scope.observed.admitted ++ scope.unknownIn batch
      unconfirmed := scope.observed.unconfirmed ++ scope.unknownIn batch } }

def unsettled [DecidableEq Key] : List (Entry Key) :=
  scope.observed.admitted.filter fun entry =>
    entry ∉ scope.observed.confirmed ++ scope.observed.unconfirmed

/-- The end of `_close_owned`. -/
def finishClose [DecidableEq Key] : BatchScope Key :=
  { scope with
    unconfirmed := scope.unconfirmed +
      (max 0 ((scope.accepted : Int) - scope.confirmed - scope.unconfirmed)).toNat
    settled := scope.accepted
    closing := .closed
    observed := { scope.observed with
      unconfirmed := scope.observed.unconfirmed ++ scope.unsettled } }

end BatchScope

variable {Key : Type}

def FreshEntry (scope : BatchScope Key) (entry : Entry Key) : Prop :=
  entry.id ∉ (scope.observed.admitted ++ scope.unknown).map (·.id)

/-! `_submit` and `flush`.  The buffer answers a call of `append` with `True` once it has
published the entry, and with `False` or a cancellation only if it has not. -/

section

variable (scope : BatchScope Key)

inductive AdmissionStep : BatchScope Key → Prop
  | began {entry : Entry Key} (free : scope.admission = none)
      (accepting : scope.accepting = true) (fresh : FreshEntry scope entry) :
      AdmissionStep { scope with admission := some { entry := entry } }
  | refused (closed : scope.accepting = false) :
      AdmissionStep (scope.reject "CACHE_CLOSED")
  | published {entry : Entry Key} (calling : scope.admission = some { entry := entry }) :
      AdmissionStep { scope with
        admission := some { entry := entry, published := true }
        queue := scope.queue ++ [entry] }
  | admitted {entry : Entry Key}
      (calling : scope.admission = some { entry := entry, published := true }) :
      AdmissionStep (scope.admitted entry)
  | rejected {entry : Entry Key} (calling : scope.admission = some { entry := entry }) :
      AdmissionStep { scope.reject "QUEUE_FULL" with admission := none }
  | cancelled {entry : Entry Key} (calling : scope.admission = some { entry := entry }) :
      AdmissionStep { scope with admission := none }
  | raised {admission : Admission Key} (calling : scope.admission = some admission) :
      AdmissionStep { scope.backendFailed with
        admission := none
        unknown := scope.unknown ++ [admission.entry] }
  | flushed {target : Nat} (target_le : target ≤ scope.accepted) :
      AdmissionStep (scope.requestFlush target)

end

/-! `_run`, `_write` and `_ack`.  The buffer answers a read with a prefix of its entries; one
that is empty or longer than asked for raises like a read that fails. -/

section

variable (batchSize : Nat) (scope : BatchScope Key)

inductive WriterStep : BatchScope Key → Prop
  | stopped (looping : scope.writer = .looping)
      (stop : scope.stopRequested = true ∨ scope.pending = 0 ∧ scope.accepting = false) :
      WriterStep { scope with writer := .finished false }
  | cancelled (looping : scope.writer = .looping) :
      WriterStep { scope with writer := .finished false }
  | asked (looping : scope.writer = .looping)
      (going : scope.stopRequested = false) (some : scope.pending ≠ 0)
      (due : scope.scheduled = true → scope.settled < scope.flushTarget) :
      WriterStep { scope with writer := .reading (scope.batchLimit batchSize) }
  | handed {limit : Nat} {batch : List (Entry Key)}
      (reading : scope.writer = .reading limit) (answer : batch <+: scope.queue)
      (bounded : batch ≠ [] ∧ batch.length ≤ limit) (going : scope.stopRequested = false) :
      WriterStep (scope.hand batch)
  | returned {limit : Nat} (reading : scope.writer = .reading limit)
      (stop : scope.stopRequested = true) :
      WriterStep { scope with writer := .finished false }
  | raised {limit : Nat} (reading : scope.writer = .reading limit) :
      WriterStep { scope with writer := .finished true }
  | readCancelled {limit : Nat} (reading : scope.writer = .reading limit) : WriterStep
        { if scope.stopRequested then scope else scope.backendFailed with
          writer := .finished false }
  | confirmed {batch : List (Entry Key)}
      (writing : scope.writer = .writing batch) : WriterStep (scope.confirm batch)
  | writeFailed {batch : List (Entry Key)} {code : String}
      (writing : scope.writer = .writing batch) :
      WriterStep (scope.writeFailed batch code)
  | timedOut {batch : List (Entry Key)} (writing : scope.writer = .writing batch) :
      WriterStep { scope with lastFailureCode := scope.noteFailure "WRITE_TIMEOUT" }
  | interrupted {batch : List (Entry Key)} (writing : scope.writer = .writing batch) :
      WriterStep { scope with stopRequested := true, accepting := false }
  | acked {batch : List (Entry Key)} (acking : scope.writer = .acking batch) :
      WriterStep { scope with
        queue := scope.acknowledge batch
        settled := scope.settled + batch.length
        writer := .looping }
  | retried {batch queue : List (Entry Key)}
      (acking : scope.writer = .acking batch) (released : scope.Released batch queue) :
      WriterStep { scope with queue := queue }
  | gaveUp {batch queue : List (Entry Key)}
      (acking : scope.writer = .acking batch) (released : scope.Released batch queue) :
      WriterStep { scope with queue := queue, writer := .finished true }
  | ackCancelled {batch queue : List (Entry Key)}
      (acking : scope.writer = .acking batch) (released : scope.Released batch queue) :
      WriterStep
        { if scope.stopRequested then scope else scope.backendFailed with
          queue := queue
          writer := .finished false }
  | ackInterrupted {batch : List (Entry Key)} (acking : scope.writer = .acking batch) :
      WriterStep { scope with queue := scope.acknowledge batch, writer := .finished false }
  | reported (dead : scope.writer = .finished true) :
      WriterStep { scope.backendFailed with writer := .finished false }

end

section

variable [DecidableEq Key] (scope : BatchScope Key)

inductive CloseStep : BatchScope Key → Prop
  | asked (first : scope.closing = .unasked) :
      CloseStep { scope.stopAccepting with closing := .waiting }
  | askedAgain : CloseStep scope.stopAccepting
  | admissionsDone (waiting : scope.closing = .waiting)
      (done : scope.admission = none) : CloseStep { scope with closing := .draining }
  | stopRequested (draining : scope.closing = .draining) :
      CloseStep { scope with stopRequested := true, lastFailureCode := some "CLOSE_TIMEOUT" }
  | drained (draining : scope.closing = .draining)
      (done : scope.writer = .absent ∨ ∃ failed, scope.writer = .finished failed) :
      CloseStep { scope with closing := .releasing }
  | read {batch : List (Entry Key)}
      (releasing : scope.closing = .releasing) (answer : batch <+: scope.queue)
      (more : batch ≠ []) (owns : scope.accepted ≠ 0 ∨ scope.unknown ≠ []) :
      CloseStep { scope with closing := .acking batch }
  | released {batch : List (Entry Key)}
      (acking : scope.closing = .acking batch) : CloseStep (scope.release batch)
  | retried {batch queue : List (Entry Key)}
      (acking : scope.closing = .acking batch) (released : scope.Released batch queue) :
      CloseStep { scope with queue := queue }
  | finished {batch : List (Entry Key)}
      (releasing : scope.closing = .releasing) (answer : batch <+: scope.queue)
      (finished : batch = [] ∨ scope.accepted = 0 ∧ scope.unknown = []) :
      CloseStep scope.finishClose
  | readFailed (releasing : scope.closing = .releasing) :
      CloseStep { scope.backendFailed with closing := .failed }
  | ackFailed {batch queue : List (Entry Key)}
      (acking : scope.closing = .acking batch) (released : scope.Released batch queue) :
      CloseStep { scope.backendFailed with closing := .failed, queue := queue }

end

inductive BatchStep [DecidableEq Key] (batchSize : Nat) : BatchScope Key → BatchScope Key → Prop
  | admission {scope after : BatchScope Key} (step : AdmissionStep scope after) :
      BatchStep batchSize scope after
  | writer {scope after : BatchScope Key} (step : WriterStep batchSize scope after) :
      BatchStep batchSize scope after
  | close {scope after : BatchScope Key} (step : CloseStep scope after) :
      BatchStep batchSize scope after

def batchMachine (Key : Type) [DecidableEq Key] (batchSize : Nat) :
    Machine (BatchScope Key) Unit where
  initial scope := ∃ scheduled, scope = { scheduled := scheduled }
  step before _ after := BatchStep batchSize before after

theorem reachable_batchStep [DecidableEq Key]
    (reachable : (batchMachine Key batchSize).Reachable scope)
    (step : BatchStep batchSize scope after) : (batchMachine Key batchSize).Reachable after :=
  have taken : (batchMachine Key batchSize).step scope () after := step
  reachable.step taken

end Linktools.Cache
