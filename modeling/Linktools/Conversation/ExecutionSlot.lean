import Linktools.Conversation.ForkForests

namespace Linktools.Conversation

open Library Library.Machine Persistence ConversationStore Function

def ConversationStore.activeSlot (store : ConversationStore) (sessionId : String) : Option String :=
  (store.sessions sessionId).bind fun record => record.activeExecutionId

namespace ConversationCall

def Admits (sessionId executionId : String) : ConversationCall → Prop
  | .admitExecution _ session execution _ _ _ => session = sessionId ∧ execution = executionId
  | _ => False

def Frees (sessionId executionId : String) : ConversationCall → Prop
  | .releaseExecution _ session execution _ _ _ =>
    session = sessionId ∧ execution = executionId
  | .completeExecution _ session execution _ _ _ _ =>
    session = sessionId ∧ execution = executionId
  | _ => False

end ConversationCall

/-- A record with an active execution is about to be swapped into a session whose slot is
free. -/
def Resurrects (repo : ConversationRepository) (store : ConversationStore)
    (tenantId sessionId : String) (expectedRevision : Int) (next : SessionRecord) : Prop :=
  tenantId = repo.tenantId ∧ ∃ current, store.sessions sessionId = some current ∧
    current.revision = expectedRevision ∧
    ConversationStore.sameSessionIdentity current next ∧ current.activeExecutionId = none ∧
    next.activeExecutionId ≠ none

/-- A session is about to be stored with an active execution in its record. -/
def BornHeld (store : ConversationStore) (record : SessionRecord) : Prop :=
  store.sessions record.sessionId = none ∧ record.activeExecutionId ≠ none

/-- The calls that fill a slot without an admission, or leave a completed execution in its
slot because its cursor is the stored one. -/
def LeaksSlot (repo : ConversationRepository) (store : ConversationStore) :
    ConversationCall → Prop
  | .createSession value => BornHeld store value
  | .createSessionWithOperation record operation =>
    store.NewOperation operation ∧ BornHeld store record
  | .createForkWithOperation _ target _ operation _ =>
    store.NewOperation operation ∧ BornHeld store target
  | .compareAndSwap tenantId sessionId revision next =>
    Resurrects repo store tenantId sessionId revision next
  | .compareAndSwapWithOperation tenantId sessionId revision next operation =>
    (operation.tenantId = repo.tenantId ∧ store.NewOperation operation) ∧
      Resurrects repo store tenantId sessionId revision next
  | .completeExecution tenantId sessionId executionId _ next _ _ =>
    tenantId = repo.tenantId ∧ ∃ current, store.sessions sessionId = some current ∧
      current.continuation = some next ∧ current.activeExecutionId = some executionId
  | _ => False

variable {repo : ConversationRepository} {store after : ConversationStore}
  {call : ConversationCall} {record current next : SessionRecord} {sessionId executionId : String}

theorem activeSlot_congr (same : after.sessions = store.sessions) :
    after.activeSlot = store.activeSlot := by
  funext sessionId
  rw [activeSlot, same]
  rfl

theorem activeSlot_of_stored (stored : store.sessions sessionId = some record) :
    store.activeSlot sessionId = record.activeExecutionId := by
  rw [activeSlot, stored]
  rfl

theorem activeSlot_putSession : (store.putSession record).activeSlot =
      update store.activeSlot record.sessionId record.activeExecutionId := by
  funext other
  by_cases same : other = record.sessionId
  · subst same
    rw [update_self]
    exact activeSlot_of_stored (update_self _ _ _)
  · change (update store.sessions record.sessionId (some record) other).bind _ = _
    rw [update_of_ne same, update_of_ne same]
    rfl

theorem activeSlot_update_stored (stored : store.sessions sessionId = some record)
    (kept : next.activeExecutionId = record.activeExecutionId) :
    update store.activeSlot sessionId next.activeExecutionId = store.activeSlot := by
  rw [kept, ← activeSlot_of_stored stored, update_eq_self]

section

variable (rewrites : ConversationRepository.RewritesSession store after sessionId current next)
include rewrites

theorem ConversationRepository.RewritesSession.activeSlot :
    after.activeSlot = update store.activeSlot sessionId next.activeExecutionId := by
  obtain ⟨_, _, rfl, _, ledger, rfl⟩ := rewrites
  rw [activeSlot_putSession]
  rfl

theorem ConversationRepository.RewritesSession.activeSlot_same
    (kept : next.activeExecutionId = current.activeExecutionId) :
    after.activeSlot = store.activeSlot := by
  rw [rewrites.activeSlot, activeSlot_update_stored rewrites.1 kept]

end

theorem activeSlot_insert (fresh : store.sessions record.sessionId = none)
    (free : record.activeExecutionId = none) :
    update store.activeSlot record.sessionId record.activeExecutionId =
      store.activeSlot := by
  rw [free, update_eq_self_iff, activeSlot, fresh]
  rfl

theorem ConversationRepository.CreatesSession.activeSlot
    (creates : ConversationRepository.CreatesSession store after record)
    (sound : ¬BornHeld store record) : after.activeSlot = store.activeSlot := by
  obtain ⟨ledger, history, fresh, _, _, _, _, _, _, _, rfl⟩ := creates
  rw [activeSlot_putSession]
  exact activeSlot_insert fresh (not_not.mp fun held => sound ⟨fresh, held⟩)

theorem ConversationRepository.ForksSession.activeSlot
    (forks : ConversationRepository.ForksSession store after source child nodeId record)
    (sound : ¬BornHeld store record) : after.activeSlot = store.activeSlot := by
  obtain ⟨ledger, _, _, _, _, _, indexed, history, projections, _, _, _, _, _, _, _, extended, _, _,
    _, _, fresh, _, _, rfl⟩ := forks
  obtain ⟨indexNodes, rfl⟩ := extendIndex_nodes extended
  have free : record.activeExecutionId = none := not_not.mp fun held => sound ⟨fresh, held⟩
  refine (activeSlot_congr rfl).trans (activeSlot_putSession.trans ?_)
  exact activeSlot_insert fresh free

theorem ConversationRepository.RewritesSession.activeSlot_swapped {tenantId : String}
    (rewrites : ConversationRepository.RewritesSession store after sessionId current record)
    (tenant : tenantId = repo.tenantId) (expected : current.revision = expectedRevision)
    (identity : ConversationStore.sameSessionIdentity current record)
    (keeps : ConversationRepository.KeepsActive current next record)
    (sound : ¬Resurrects repo store tenantId sessionId expectedRevision next) :
    after.activeSlot = store.activeSlot := by
  refine rewrites.activeSlot_same ?_
  rcases keeps with ⟨free, rfl⟩ | ⟨_, kept⟩
  · have stays : record.activeExecutionId = none := not_not.mp fun held =>
      sound ⟨tenant, current, rewrites.1, expected, identity, free, held⟩
    rw [free, stays]
  · exact kept

theorem slot_iff_of_same (same : after.activeSlot = store.activeSlot)
    (quiet : call.Admits sessionId executionId → store.activeSlot sessionId = some executionId)
    (kept : call.Frees sessionId executionId → store.activeSlot sessionId ≠ some executionId) :
    after.activeSlot sessionId = some executionId ↔ call.Admits sessionId executionId ∨
        store.activeSlot sessionId = some executionId ∧ ¬call.Frees sessionId executionId := by
  rw [same]
  tauto

variable {execution session : String}

theorem slot_iff_of_freed (freed : after.activeSlot = update store.activeSlot session none)
    (held : store.activeSlot session = some execution) (quiet : ¬call.Admits sessionId executionId)
    (frees : call.Frees sessionId executionId ↔ session = sessionId ∧ execution = executionId) :
    after.activeSlot sessionId = some executionId ↔ call.Admits sessionId executionId ∨
        store.activeSlot sessionId = some executionId ∧ ¬call.Frees sessionId executionId := by
  rw [freed, frees, or_iff_right quiet]
  by_cases same : sessionId = session
  · subst same
    simp [held]
  · rw [update_of_ne same]
    tauto

theorem slot_iff_of_taken
    (taken : after.activeSlot = update store.activeSlot session (some execution))
    (free : store.activeSlot session = none) (kept : ¬call.Frees sessionId executionId)
    (admits : call.Admits sessionId executionId ↔ session = sessionId ∧ execution = executionId) :
    after.activeSlot sessionId = some executionId ↔ call.Admits sessionId executionId ∨
        store.activeSlot sessionId = some executionId ∧ ¬call.Frees sessionId executionId := by
  rw [taken, admits]
  by_cases same : sessionId = session
  · subst same
    simp [free]
  · rw [update_of_ne same]
    tauto

theorem slot_iff_of_quiet (quiet : call.Quiet repo store)
    (sound : ¬LeaksSlot repo store call) (kept : after.sessions = store.sessions) :
    after.activeSlot sessionId = some executionId ↔ call.Admits sessionId executionId ∨
        store.activeSlot sessionId = some executionId ∧ ¬call.Frees sessionId executionId := by
  have same := activeSlot_congr kept
  cases call with
  | admitExecution =>
    obtain ⟨current, stored, held⟩ := quiet
    refine slot_iff_of_same same ?_ nofun
    rintro ⟨rfl, rfl⟩
    rw [activeSlot_of_stored stored, held]
  | releaseExecution =>
    obtain ⟨current, stored, elsewhere⟩ := quiet
    refine slot_iff_of_same same nofun ?_
    rintro ⟨rfl, rfl⟩
    rwa [activeSlot_of_stored stored]
  | completeExecution =>
    obtain ⟨tenant, current, stored, reached⟩ := quiet
    refine slot_iff_of_same same nofun ?_
    rintro ⟨rfl, rfl⟩ held
    rw [activeSlot_of_stored stored] at held
    exact sound ⟨tenant, current, stored, reached, held⟩
  | _ => exact slot_iff_of_same same nofun nofun

theorem slot_iff_of_rewrites
    (rewrites : ConversationRepository.RewritesSession store after session current record)
    (treats : call.Rewrites repo store session current record)
    (sound : ¬LeaksSlot repo store call) : after.activeSlot sessionId = some executionId ↔
      call.Admits sessionId executionId ∨
        store.activeSlot sessionId = some executionId ∧ ¬call.Frees sessionId executionId := by
  have freed (free : record.activeExecutionId = none) :
      after.activeSlot = update store.activeSlot session none := by
    rw [rewrites.activeSlot, free]
  cases call with
  | compareAndSwap =>
    obtain ⟨rfl, tenant, expected, identity, keeps⟩ := treats
    exact slot_iff_of_same (rewrites.activeSlot_swapped tenant expected identity keeps sound)
      nofun nofun
  | compareAndSwapWithOperation =>
    obtain ⟨rfl, new, tenant, expected, identity, keeps⟩ := treats
    exact slot_iff_of_same
      (rewrites.activeSlot_swapped tenant expected identity keeps fun resurrects =>
        sound ⟨new, resurrects⟩)
      nofun nofun
  | releaseExecution =>
    obtain ⟨rfl, held, free⟩ := treats
    exact slot_iff_of_freed (freed free) ((activeSlot_of_stored rewrites.1).trans held) nofun
      Iff.rfl
  | completeExecution =>
    obtain ⟨rfl, held, free⟩ := treats
    exact slot_iff_of_freed (freed free) ((activeSlot_of_stored rewrites.1).trans held) nofun
      Iff.rfl
  | transitionStatus | rememberRepositoryInstructionScopes | advanceContinuation =>
    exact slot_iff_of_same (rewrites.activeSlot_same treats) nofun nofun
  | _ => cases treats

theorem slot_iff_of_ok (done : call.run repo store = .ok after)
    (sound : ¬LeaksSlot repo store call) : after.activeSlot sessionId = some executionId ↔
      call.Admits sessionId executionId ∨
        store.activeSlot sessionId = some executionId ∧ ¬call.Frees sessionId executionId := by
  cases ConversationCall.returned_of_ok done with
  | quiet kept silent => exact slot_iff_of_quiet silent sound (kept ▸ rfl)
  | rewritten rewrites treats => exact slot_iff_of_rewrites rewrites treats sound
  | created creates asked =>
    cases call with
    | createSession =>
      cases asked
      exact slot_iff_of_same (creates.activeSlot sound) nofun nofun
    | createSessionWithOperation =>
      obtain ⟨new, rfl⟩ := asked
      exact slot_iff_of_same (creates.activeSlot fun held => sound ⟨new, held⟩) nofun nofun
    | _ => cases asked
  | forkedSession new named forks =>
    refine slot_iff_of_same (forks.activeSlot ?_) nofun nofun
    rintro ⟨fresh, held⟩
    rw [named.1] at fresh
    rw [named.2] at held
    exact sound ⟨new, fresh, held⟩
  | promoted _ _ _ inserted =>
    exact slot_iff_of_same (activeSlot_congr (inserted ▸ rfl)) nofun nofun
  | forked forks =>
    obtain ⟨_, _, _, _, _, _, extended, _, _, _, _, projections, puts⟩ := fork_ok forks
    obtain ⟨indexNodes, rfl⟩ := extendIndex_nodes extended
    rcases puts with ⟨_, _, rfl⟩ | ⟨_, rfl⟩
    · exact slot_iff_of_same (activeSlot_congr rfl) nofun nofun
    · exact slot_iff_of_same (activeSlot_congr rfl) nofun nofun
  | appended appends =>
    obtain ⟨_, _, _, rfl⟩ := appendChunks_ok appends
    exact slot_iff_of_same (activeSlot_congr rfl) nofun nofun
  | admitted stored named opened taken =>
    subst named taken
    exact slot_iff_of_taken ((activeSlot_congr rfl).trans activeSlot_putSession)
      ((activeSlot_of_stored stored).trans opened.1) nofun Iff.rfl
  | committed _ commits => exact slot_iff_of_same (activeSlot_congr (commits ▸ rfl)) nofun nofun
  | committedPending rewrites opened free _ commits =>
    subst commits
    refine slot_iff_of_same ?_ nofun nofun
    exact (activeSlot_congr rfl).trans (rewrites.activeSlot_same (free.trans opened.1.symm))

def KeepsSlots (repo : ConversationRepository) (store : ConversationStore)
    (label : ConversationLabel) : Prop :=
  ¬LeaksSlot repo store label.call

/-- The slot of a session: admissions that return take it, releases and completions that
return free it. -/
def executionSlot (repo : ConversationRepository) (sessionId : String) :
    Slot ((conversationSystem repo).restrict (KeepsSlots repo)) String where
  holder store := store.activeSlot sessionId
  takes label executionId := label.raised = none ∧ label.call.Admits sessionId executionId
  frees label executionId := label.raised = none ∧ label.call.Frees sessionId executionId
  step_iff := by
    rintro first label last ⟨step, sound⟩ executionId
    rcases callSystem_cases step with ⟨returned, done⟩ | ⟨raised, loud, _, rfl⟩
    · rw [slot_iff_of_ok done sound, returned, eq_self, true_and, true_and]
    · simp [loud]

theorem admits_not_frees (takes : (executionSlot repo sessionId).takes label executionId) :
    ¬(executionSlot repo sessionId).frees label executionId := by
  obtain ⟨_, admits⟩ := takes
  rintro ⟨_, frees⟩
  cases call : label.call <;> rw [call] at admits frees <;> first | exact admits | exact frees

/-- In every run of calls none of which leaks a slot, a session is held by the execution
that has been admitted and not been released or completed since, there is at most one, and
a release or completion that returns leaves the session not held by its execution. -/
theorem execution_slot_follows_admissions {labels : List ConversationLabel}
    (run : Run ((conversationSystem repo).restrict (KeepsSlots repo)) {} labels store)
    (sessionId : String) : (∀ executionId, store.activeSlot sessionId = some executionId ↔
      (executionSlot repo sessionId).HeldSince labels executionId) ∧
    (∀ first second, (executionSlot repo sessionId).HeldSince labels first →
      (executionSlot repo sessionId).HeldSince labels second → first = second) ∧
    ∀ before label executionId, labels = before ++ [label] → label.raised = none →
      label.call.Frees sessionId executionId → store.activeSlot sessionId ≠ some executionId := by
  have empty : (executionSlot repo sessionId).holder {} = none := rfl
  refine ⟨fun executionId => Slot.holder_run_of_empty empty run, ?_, ?_⟩
  · intro first second held also
    exact Slot.heldSince_unique empty run held also
  · rintro before label executionId rfl returned frees
    obtain ⟨middle, _, last⟩ := run.of_append
    obtain ⟨_, step, done⟩ := last.of_cons
    cases done
    exact Slot.holder_of_frees (fun _ _ => admits_not_frees) step ⟨returned, frees⟩

def sampleAdmissions : List ConversationCall :=
  [.createSession { sampleSession with historyId := none },
    .admitExecution "t" "s" "e1" none none false, .releaseExecution "t" "s" "e1" false false 5]

/-- The session is free again after its execution has been released. -/
theorem sample_slot_released :
    (playCalls (ConversationCall.run sampleRepository) {} sampleAdmissions).1.activeSlot "s" ≠
      some "e1" := by
  have run : Run ((conversationSystem sampleRepository).restrict (KeepsSlots sampleRepository)) {}
      (playCalls (ConversationCall.run sampleRepository) {} sampleAdmissions).2
      (playCalls (ConversationCall.run sampleRepository) {} sampleAdmissions).1 := by
    refine run_restrict_playCalls fun store call member raised leaks => ?_
    simp only [sampleAdmissions, List.mem_cons, List.not_mem_nil, or_false] at member
    rcases member with rfl | rfl | rfl
    · exact leaks.2 rfl
    · exact leaks
    · exact leaks
  have labels : (playCalls (ConversationCall.run sampleRepository) {} sampleAdmissions).2 =
      [⟨.createSession { sampleSession with historyId := none }, none⟩,
        ⟨.admitExecution "t" "s" "e1" none none false, none⟩] ++
        [⟨.releaseExecution "t" "s" "e1" false false 5, none⟩] :=
    playCalls_quiet (by decide +kernel)
  exact (execution_slot_follows_admissions run "s").2.2 _ _ "e1" labels rfl ⟨rfl, rfl⟩

def sampleStaleSwap : List ConversationCall :=
  sampleAdmissions ++ [.compareAndSwap "t" "s" 0
    { sampleSession with historyId := some "s", activeExecutionId := some "e1", revision := 1 }]

/-- Every call returns, and the session is held again by the released execution. -/
theorem sample_swap_resurrects_execution : Run (conversationSystem sampleRepository) {}
        (sampleStaleSwap.map fun call => ⟨call, none⟩)
        (playCalls (ConversationCall.run sampleRepository) {} sampleStaleSwap).1 ∧
      (playCalls (ConversationCall.run sampleRepository) {} sampleStaleSwap).1.activeSlot "s" =
        some "e1" ∧ ¬(executionSlot sampleRepository "s").HeldSince
        (sampleStaleSwap.map fun call => ⟨call, none⟩) "e1" := by
  have labels : (playCalls (ConversationCall.run sampleRepository) {} sampleStaleSwap).2 =
      sampleStaleSwap.map fun call => ⟨call, none⟩ := playCalls_quiet (by decide +kernel)
  refine ⟨?_, by decide +kernel, ?_⟩
  · rw [← labels]
    exact run_playCalls _ sampleStaleSwap
  · simp [sampleStaleSwap, sampleAdmissions, Slot.heldSince_cons, Slot.not_heldSince_nil,
      executionSlot, ConversationCall.Admits, ConversationCall.Frees]

end Linktools.Conversation
