import Linktools.Memory.MutationCommits

namespace Linktools.Memory

open Linktools.Core Library
open List hiding after

variable {runtime : RuntimeMemoryStore} {system last : MemorySystem} {events : List MemoryEvent}
  {call : MemoryCall} {log : List Committed} {entry : Committed}

structure SystemKept (runtime : RuntimeMemoryStore) (system : MemorySystem) : Prop where
  ledger : LedgerOf runtime system.store system.log
  records : RecordsOf runtime system.store system.log
  chain : ∀ earlier entry later, system.log = earlier ++ entry :: later → Guarded earlier entry
  calls : ∀ call ∈ system.calls, CallKept runtime system.log call

theorem systemKept_start : SystemKept runtime {} := by
  refine ⟨⟨?_, ?_, nodup_nil, ?_⟩, ⟨?_, fun _ => rfl⟩, ?_, ?_⟩
  · intro entry member
    cases member
  · intro key row found
    cases found
  · intro entry member
    cases member
  · intro path record found
    cases found
  · intro earlier entry later split
    exact absurd split.symm (append_ne_nil_of_right_ne_nil _ (cons_ne_nil _ _))
  · intro call member
    cases member

variable {request : MutationRequest}

theorem validate_error (failed : request.validate = .error error) :
    ∃ text, error = .valueError text := by
  have refused {condition : Prop} [Decidable condition] {text : String}
      (raised : refuse condition (MemoryError.valueError text) = .error error) :
      ∃ text, error = .valueError text := ⟨text, (refuse_eq_error.mp raised).2.symm⟩
  cases bind_eq_error.mp failed with
  | inl path =>
    cases bind_eq_error.mp path with
    | inl shape => exact refused shape
    | inr parts =>
      obtain ⟨_, _, parts⟩ := parts
      cases bind_eq_error.mp parts with
      | inl segments => exact refused segments
      | inr impossible =>
        obtain ⟨_, _, impossible⟩ := impossible
        cases impossible
  | inr failed =>
    obtain ⟨_, _, failed⟩ := failed
    cases bind_eq_error.mp failed with
    | inl content =>
      cases body : request.body with
      | write text =>
        rw [body] at content
        exact refused content
      | delete =>
        rw [body] at content
        cases content
    | inr failed =>
      obtain ⟨_, _, failed⟩ := failed
      cases bind_eq_error.mp failed with
      | inl version => exact refused version
      | inr failed =>
        obtain ⟨_, _, failed⟩ := failed
        cases bind_eq_error.mp failed with
        | inl operation => exact refused operation
        | inr impossible =>
          obtain ⟨_, _, impossible⟩ := impossible
          cases impossible

theorem start_kept : CallKept runtime log (.start request) := by
  unfold MemoryCall.start
  split
  case h_1 valid validated =>
    obtain ⟨path, normal, validated⟩ := bind_eq_ok.mp validated
    obtain ⟨_, _, validated⟩ := bind_eq_ok.mp validated
    obtain ⟨_, _, validated⟩ := bind_eq_ok.mp validated
    obtain ⟨_, operation, validated⟩ := bind_eq_ok.mp validated
    cases validated
    cases normalizePath_eq normal
    exact ⟨.inr ⟨operation, normal⟩, trivial⟩
  case h_2 error failed =>
    obtain ⟨text, rfl⟩ := validate_error failed
    exact ⟨.inl ⟨_, rfl⟩, fun _ => nofun⟩

variable {reference : Option String} {now : Time}

theorem advance_quiet (kept : SystemKept runtime system)
    (looked : runtime.advance system.store call.request now reference call.phase =
      (system.store, phase))
    (reads : (if call.phase = .reading then system.log.length else call.readAt) = readAt)
    (later : CallKept runtime system.log ⟨call.request, phase, readAt⟩) :
    SystemKept runtime (system.advance runtime index call now reference) := by
  have uncommitted : call.committed (runtime.operationId call.request.operation.id) system.store
      system.store = [] := by
    unfold MemoryCall.committed
    split
    case h_1 => exact if_neg fun both => both.2 both.1
    case h_2 => rfl
  unfold MemorySystem.advance
  dsimp only
  rw [looked, uncommitted, append_nil, reads]
  refine ⟨kept.ledger, kept.records, kept.chain, fun other stored => ?_⟩
  cases mem_or_eq_of_mem_set stored with
  | inl earlier => exact kept.calls other earlier
  | inr newer => exact newer ▸ later

variable {index : Nat} {receipt : MutationReceipt}

theorem advance_committed (kept : SystemKept runtime system)
    (reached : call.phase = .applying current receipt prepared)
    (looked : runtime.advance system.store call.request now reference call.phase =
      (after, .done (.ok (receipt.mutation false))))
    (absent : ∀ entry ∈ system.log, entry.request.operation.id ≠ call.request.operation.id)
    (own : ReceiptOf runtime call.request receipt)
    (ledger : LedgerOf runtime after (system.log ++ [⟨call.request, receipt, call.readAt⟩]))
    (records : RecordsOf runtime after (system.log ++ [⟨call.request, receipt, call.readAt⟩]))
    (guarded : Guarded system.log ⟨call.request, receipt, call.readAt⟩) :
    SystemKept runtime (system.advance runtime index call now reference) := by
  have before : system.store.operations (runtime.operationId call.request.operation.id) = none := by
    by_contra some
    obtain ⟨entry, member, id⟩ := (operations_isSome_iff kept.ledger).mp some
    exact absent entry member id
  have inserted : after.operations (runtime.operationId call.request.operation.id) ≠ none :=
    (operations_isSome_iff ledger).mpr ⟨_, mem_append_right _ mem_cons_self, rfl⟩
  have committed : call.committed (runtime.operationId call.request.operation.id) system.store
      after = [⟨call.request, receipt, call.readAt⟩] := by
    unfold MemoryCall.committed
    rw [reached]
    exact if_pos ⟨before, inserted⟩
  unfold MemorySystem.advance
  dsimp only
  rw [looked, committed]
  refine ⟨ledger, records, fun earlier entry later split => ?_, fun other stored => ?_⟩
  · dsimp only at split
    cases later using reverseRecOn with
    | nil =>
      have equal := append_inj' split rfl
      rw [← equal.1, ← List.cons.inj equal.2 |>.1]
      exact guarded
    | append_singleton later final =>
      rw [← cons_append, ← append_assoc] at split
      exact kept.chain earlier entry later (append_inj' split rfl).1
  · cases mem_or_eq_of_mem_set stored with
    | inl earlier => exact (kept.calls other earlier).grow
    | inr newer =>
      rw [newer]
      refine ⟨.inl ⟨_, rfl⟩, _, mem_append_right _ mem_cons_self,
        ⟨rfl, own.path, own.kind⟩, rfl, rfl⟩

theorem apply_outcome (now : Time) (kept : SystemKept runtime system)
    (ready : ReadyToApply runtime system.log call.request call.readAt current receipt prepared) :
    Outcome runtime system.store system.log call receipt
      (runtime.apply system.store call.request now current receipt prepared).1
      (runtime.apply system.store call.request now current receipt prepared).2 := by
  cases prepared with
  | write next => exact applyWrite_outcome kept.ledger kept.records ready
  | delete => exact applyDelete_outcome kept.ledger kept.records ready

section

variable (kept : SystemKept runtime system)
include kept

theorem advance_kept (member : call ∈ system.calls) :
    SystemKept runtime (system.advance runtime index call now reference) := by
  have own := kept.calls call member
  have phase := own.phase
  have valid : (∀ answer, call.phase ≠ .done answer) →
      validateOperation call.request.operation = .ok () ∧
        normalizePath call.request.path = .ok call.request.path := by
    intro running
    cases own.valid with
    | inl ended => exact absurd ended.choose_spec (running _)
    | inr valid => exact valid
  cases reached : call.phase with
  | lookingUp =>
    rw [reached] at valid
    have checked := valid (by simp)
    have looked : runtime.advance system.store call.request now reference call.phase =
        (system.store, runtime.lookUp system.store call.request) := by
      rw [reached]
      rfl
    refine advance_quiet kept looked (if_neg ?_) ⟨.inr checked, lookUp_kept kept.ledger checked.1⟩
    rw [reached]
    simp
  | reading =>
    rw [reached] at valid
    have checked := valid (by simp)
    cases ran : runtime.read system.store call.request now reference with
    | ok phase =>
      exact advance_quiet kept (by rw [reached, RuntimeMemoryStore.advance, ran])
        (if_pos reached) ⟨.inr checked, read_kept kept.records checked.2 ran⟩
    | error error =>
      have looked : runtime.advance system.store call.request now reference call.phase =
          (system.store, .done (.error error)) := by
        rw [reached, RuntimeMemoryStore.advance, ran]
      exact advance_quiet kept looked (if_pos reached)
        ⟨.inl ⟨_, rfl⟩, read_error_kept kept.records ran⟩
  | conflicted =>
    have looked : runtime.advance system.store call.request now reference call.phase =
        (system.store, .done (.error (runtime.mapMutationError system.store call.request))) := by
      rw [reached]
      rfl
    have ended : Answered system.log call.request
        (.error (runtime.mapMutationError system.store call.request)) := conflicted_kept
    refine advance_quiet kept looked (if_neg ?_) ⟨.inl ⟨_, rfl⟩, ended⟩
    rw [reached]
    simp
  | replaying =>
    rw [reached] at valid phase
    have checked := valid (by simp)
    obtain ⟨entry, member, same⟩ := phase
    refine advance_quiet kept (by rw [reached]; rfl) (if_neg ?_)
      ⟨.inl ⟨_, rfl⟩, replayed_kept kept.ledger checked.1 member same⟩
    rw [reached]
    simp
  | done answer =>
    rw [reached] at phase
    refine advance_quiet kept (by rw [reached]; rfl) (if_neg ?_) ⟨.inl ⟨_, rfl⟩, phase⟩
    rw [reached]
    simp
  | applying current receipt prepared =>
    rw [reached] at valid phase
    have checked := valid (by simp)
    have waits : ¬call.phase = .reading := by
      rw [reached]
      simp
    have looked : runtime.advance system.store call.request now reference call.phase =
        runtime.apply system.store call.request now current receipt prepared := by
      rw [reached]
      rfl
    have outcome := apply_outcome now kept phase
    generalize runtime.apply system.store call.request now current receipt prepared = applied
      at looked outcome
    obtain ⟨after, next⟩ := applied
    cases outcome with
    | unchanged later still => exact advance_quiet kept looked (if_neg waits) ⟨.inr checked, later⟩
    | committed absent ledger records guarded =>
      exact advance_committed kept reached looked absent phase.own ledger records guarded

theorem respond_kept : SystemKept runtime (system.respond runtime event) := by
  cases event with
  | call request =>
    refine ⟨kept.ledger, kept.records, kept.chain, fun call member => ?_⟩
    cases mem_append.mp member with
    | inl earlier => exact kept.calls call earlier
    | inr newer =>
      rw [mem_singleton.mp newer]
      exact start_kept
  | advance =>
    unfold MemorySystem.respond
    dsimp only
    split
    case h_1 => exact kept
    case h_2 call found => exact advance_kept kept (mem_of_getElem? found)

theorem systemKept_of_run
    (run : (memoryMachine runtime).Run system events last) : SystemKept runtime last := by
  induction run with
  | nil => exact kept
  | cons step _ ih =>
    cases step
    exact ih (respond_kept kept)

theorem advance_store_eq (member : call ∈ system.calls) (logged : entry ∈ system.log)
    (id : entry.request.operation.id = call.request.operation.id) :
    (runtime.advance system.store call.request now reference call.phase).1 = system.store := by
  have phase := (kept.calls call member).phase
  cases reached : call.phase with
  | lookingUp => rfl
  | reading => rfl
  | conflicted => rfl
  | replaying => rfl
  | done answer => rfl
  | applying current receipt prepared =>
    rw [reached] at phase
    have outcome := apply_outcome now kept phase
    change (runtime.apply system.store call.request now current receipt prepared).1 = system.store
    generalize runtime.apply system.store call.request now current receipt prepared = applied
      at outcome
    obtain ⟨after, next⟩ := applied
    cases outcome with
    | unchanged => rfl
    | committed absent => exact absurd id (absent entry logged)

end

theorem log_grows (run : (memoryMachine runtime).Run system events last) :
    system.log <+: last.log := by
  induction run with
  | nil => exact prefix_rfl
  | @cons first middle last event events step _ ih =>
    cases step
    refine List.IsPrefix.trans ?_ ih
    cases event with
    | call request => exact prefix_rfl
    | advance =>
      unfold MemorySystem.respond
      dsimp only
      split
      case h_1 => exact prefix_rfl
      case h_2 => exact prefix_append _ _

/-- Over every interleaving of calls: each operation is committed once; a mutation has met its
expected version unless the path was removed in between, and in any case its revision; what is
stored is what the log leaves; a repeated operation is answered from its receipt and writes
nothing; and no call raises an error of integrity. -/
theorem memory_mutations_are_versioned_and_idempotent
    (run : (memoryMachine runtime).Run {} events system) :
    (system.log.map fun entry => entry.request.operation.id).Nodup ∧
    (∀ earlier entry later, system.log = earlier ++ entry :: later →
      ReceiptOf runtime entry.request entry.receipt ∧ Guarded earlier entry ∧
      (entry.receipt.version ≠ none ∨ entry.receipt.existed = true →
        (∀ other ∈ earlier.drop entry.readAt, ¬other.Removes entry.request.path) →
          entry.request.expectedVersion = (recordAfter entry.request.path earlier).map Prod.fst)) ∧
    (∀ path, (system.store.records (runtime.memoryId path)).map
      (fun record => (record.metadata.version, record.revision)) = recordAfter path system.log) ∧
    (∀ following last, (memoryMachine runtime).Run system following last →
      ∀ entry ∈ system.log, ∀ request, validateOperation request.operation = .ok () →
        entry.request.operation.id = request.operation.id →
          runtime.lookUp last.store request = .done
            (if entry.request.operation.fingerprint = request.operation.fingerprint ∧
                entry.receipt.path = request.path ∧ entry.receipt.kind = request.body.kind then
              .ok (entry.receipt.mutation true)
            else .error .operationConflict)) ∧ (∀ call ∈ system.calls, ∀ entry ∈ system.log,
      entry.request.operation.id = call.request.operation.id → ∀ now reference,
        (runtime.advance system.store call.request now reference call.phase).1 = system.store) ∧
    (∀ call ∈ system.calls, ∀ answer, call.phase = .done answer →
      Answered system.log call.request answer) := by
  have kept := systemKept_of_run systemKept_start run
  refine ⟨kept.ledger.distinct, fun earlier entry later split => ?_, kept.records.left, ?_, ?_, ?_⟩
  · have guarded := kept.chain earlier entry later split
    have logged : entry ∈ system.log := by
      rw [split]
      exact mem_append_right _ mem_cons_self
    exact ⟨kept.ledger.receipts entry logged, guarded, guarded.version_met⟩
  · intro following last went entry logged request valid id
    have later := systemKept_of_run kept went
    exact lookUp_committed later.ledger ((log_grows went).subset logged) valid id
  · intro call member entry logged id now reference
    exact advance_store_eq kept member logged id
  · intro call member answer reached
    have phase := (kept.calls call member).phase
    rw [reached] at phase
    exact phase

theorem memory_run :
    (memoryMachine runtime).Run start events
      (events.foldl (fun system event => system.respond runtime event) start) := by
  induction events generalizing start with
  | nil => exact .nil start
  | cons event rest ih => exact .cons rfl ih

def sampleHex (digit : Fin 10) : String :=
  String.ofList (Char.ofNat ('0'.toNat + digit) :: replicate 63 '0')

theorem sampleHex_isSha256 (digit : Fin 10) : isSha256 (sampleHex digit) = true := by
  rw [isSha256, sampleHex, String.length_ofList, String.toList_ofList]
  revert digit
  decide

def sampleDigest : JsonValue → Fin 10
  | .str text => Fin.ofNat 10 text.length
  | .obj fields =>
    match fields.lookup "identity" with
    | some (.str text) => Fin.ofNat 10 ((text.toList.headD '0').toNat - '0'.toNat)
    | _ => 0
  | _ => 0

def sampleRuntime : RuntimeMemoryStore where
  namespaceId := "n"
  tenantId := "t"
  memoryScopeDigest := "s"
  sha256 := ⟨fun value => sampleHex (sampleDigest value), fun _ => sampleHex_isSha256 _⟩
  memoryId := id
  operationId := id
  fitsInline _ := true
  memoryId_injective := Function.injective_id
  operationId_injective := Function.injective_id

def sampleRequest (path : String) (body : MutationBody) (expected : Option (Fin 10))
    (id : String) : MutationRequest where
  path := path
  body := body
  expectedVersion := expected.map fun digit => "m1:" ++ sampleHex digit
  operation := ⟨id, sampleHex 0⟩

def sampleLooks (index : Nat) : List MemoryEvent :=
  [.advance index 0 none, .advance index 0 none, .advance index 0 none]

def rewritten : List MemoryEvent :=
  [.call (sampleRequest "p" (.write "a") none "i")] ++ sampleLooks 0 ++
    [.call (sampleRequest "p" (.write "b") (some 1) "ii"), .advance 1 0 none, .advance 1 0 none,
      .call (sampleRequest "p" .delete (some 1) "iii")] ++ sampleLooks 2 ++
    [.call (sampleRequest "p" (.write "c") none "iiii")] ++ sampleLooks 3 ++ [.advance 1 0 none]

def rewrittenSystem : MemorySystem :=
  rewritten.foldl (fun system event => system.respond sampleRuntime event) {}

/-- The file is made between the read and the deletion of the first call. -/
def vanished : List MemoryEvent :=
  [.call (sampleRequest "p" .delete none "i"), .advance 0 0 none, .advance 0 0 none,
    .call (sampleRequest "p" (.write "a") none "ii")] ++ sampleLooks 1 ++ [.advance 0 0 none]

def vanishedSystem : MemorySystem :=
  vanished.foldl (fun system event => system.respond sampleRuntime event) {}

def sampleWrite (expected : Option (Fin 10)) (content id : String) (version : Fin 10)
    (readAt : Nat) : Committed :=
  ⟨sampleRequest "p" (.write content) expected id,
    ⟨"p", some ("m1:" ++ sampleHex version), expected.isSome, .write⟩, readAt⟩

def sampleDelete (expected : Option (Fin 10)) (id : String) (readAt : Nat) : Committed :=
  ⟨sampleRequest "p" .delete expected id, ⟨"p", none, expected.isSome, .delete⟩, readAt⟩

theorem rewritten_log : rewrittenSystem.log =
    [sampleWrite none "a" "i" 1 0, sampleDelete (some 1) "iii" 1,
      sampleWrite none "c" "iiii" 4 2, sampleWrite (some 1) "b" "ii" 2 1] := by
  decide +kernel

/-- The first write, repeated after its file has been deleted, returns its own version. -/
theorem rewritten_mutations_distinct :
    (rewrittenSystem.log.map fun entry => entry.request.operation.id).Nodup ∧
    sampleRuntime.lookUp rewrittenSystem.store (sampleRequest "p" (.write "a") none "i") =
      .done (.ok ((sampleWrite none "a" "i" 1 0).receipt.mutation true)) := by
  obtain ⟨distinct, _, _, replays, _⟩ := memory_mutations_are_versioned_and_idempotent
    (memory_run : (memoryMachine sampleRuntime).Run {} rewritten rewrittenSystem)
  have logged : sampleWrite none "a" "i" 1 0 ∈ rewrittenSystem.log := by
    rw [rewritten_log]
    exact mem_cons_self
  exact ⟨distinct, replays [] _ (.nil _) _ logged _ (by decide +kernel) rfl⟩

def ExpectedMet (log : List Committed) : Prop :=
  ∀ earlier entry later, log = earlier ++ entry :: later →
    entry.request.expectedVersion = (recordAfter entry.request.path earlier).map Prod.fst

theorem expected_version_not_met :
    ¬ExpectedMet rewrittenSystem.log ∧ ¬ExpectedMet vanishedSystem.log := by
  have missed : vanishedSystem.log = [sampleWrite none "a" "ii" 2 0, sampleDelete none "i" 0] := by
    decide +kernel
  rw [rewritten_log, missed]
  constructor
  · intro met
    exact absurd (met [sampleWrite none "a" "i" 1 0, sampleDelete (some 1) "iii" 1,
      sampleWrite none "c" "iiii" 4 2] _ [] rfl) (by decide +kernel)
  · intro met
    exact absurd (met [sampleWrite none "a" "ii" 2 0] _ [] rfl) (by decide +kernel)

end Linktools.Memory
