import Linktools.Persistence.EventReplay
import Linktools.Persistence.TaskSystem

namespace Linktools.Persistence

open Linktools.Core Library Linktools.Task TaskRepository List

variable {now time : Time} {clock : Clock} {before after records : TaskGraphRecords}
  {node value entry : NodeEntry} {nodeId : String}

structure ResultOf (records : TaskGraphRecords) (result : TaskResultRecord)
    (node : NodeEntry) : Prop where
  graphId : result.graphId = records.graphId
  nodeId : result.nodeId = node.nodeId
  status : node.status = .succeeded
  resultDigest : node.state.resultDigest = some result.resultDigest
  executionId : node.state.executionId = some result.executionId

structure ResultsAgree (records : TaskGraphRecords) : Prop where
  distinct : (records.results.map TaskResultRecord.nodeId).Nodup
  recorded : ∀ node ∈ records.nodes, node.status = .succeeded →
    ∃ result ∈ records.results, ResultOf records result node
  owned : ∀ result ∈ records.results, ∃ node ∈ records.nodes, ResultOf records result node

variable {result : TaskResultRecord}

section

variable (agree : ResultsAgree records)
include agree

section

variable (distinct : (records.nodes.map NodeEntry.nodeId).Nodup)
include distinct

theorem ResultsAgree.resultAt (found : records.entryAt nodeId = some node)
    (recorded : records.resultAt nodeId = some result) : ResultOf records result node := by
  obtain ⟨owner, inside, owned⟩ := agree.owned result (rowAt_mem recorded)
  obtain ⟨member, rfl⟩ := entryAt_mem found
  have sameId : owner.nodeId = node.nodeId := owned.nodeId.symm.trans (rowAt_key recorded)
  rwa [inj_on_of_nodup_map distinct inside member sameId] at owned

theorem ResultsAgree.succeeded_iff (found : records.entryAt nodeId = some node) :
    node.status = .succeeded ↔ ∃ result, records.resultAt nodeId = some result := by
  constructor
  · intro succeeded
    obtain ⟨member, rfl⟩ := entryAt_mem found
    obtain ⟨result, recorded, owned⟩ := agree.recorded node member succeeded
    refine ⟨result, ?_⟩
    have key := rowAt_of_mem agree.distinct recorded
    rwa [owned.nodeId] at key
  · rintro ⟨result, recorded⟩
    exact (agree.resultAt distinct found recorded).status

theorem ResultsAgree.entryAt (recorded : records.resultAt nodeId =
    some result) : ∃ node, records.entryAt nodeId = some node := by
  obtain ⟨owner, inside, owned⟩ := agree.owned result (rowAt_mem recorded)
  refine ⟨owner, ?_⟩
  have key := rowAt_of_mem distinct inside
  rwa [← owned.nodeId, rowAt_key recorded] at key

end

end

theorem Created.resultsAgree (created : Created clock records) : ResultsAgree records where
  distinct := by simp [created.results]
  recorded node member succeeded :=
    absurd succeeded (initial_not_succeeded (created.fresh node member))
  owned := by simp [created.results]

theorem Completes.resultOf
    (completes : Completes before node value result) : ResultOf before result value where
  graphId := completes.graphId
  nodeId := by
    rw [completes.nodeId, NodeEntry.nodeId, NodeEntry.nodeId, completes.definition]
  status := by rw [NodeEntry.status, completes.state]; rfl
  resultDigest := by rw [completes.state]; rfl
  executionId := by rw [completes.state]; rfl

theorem ResultOf.congr
    (owned : ResultOf before result node) (same : after.graphId = before.graphId) :
    ResultOf after result node :=
  { owned with graphId := owned.graphId.trans same.symm }

theorem Permitted.succeeded (permitted : Permitted clock scope before change)
    (member : value ∈ change.kept) (succeeded : value.status = .succeeded) :
    value ∈ before.nodes ∨ ∃ node result, Completes before node value result ∧
      change.results = [result] := by
  cases permitted with
  | claimed node claimedValue _ _ _ _ _ state =>
    rcases mem_rewriteAt member with rfl | ⟨inside, _⟩
    · rw [NodeEntry.status, state] at succeeded
      cases succeeded
    · exact .inl inside
  | held node heldValue _ _ _ active =>
    rcases mem_rewriteAt member with rfl | ⟨inside, _⟩
    · rcases active with status | status <;> simp [status] at succeeded
    · exact .inl inside
  | prepared | repaired => exact .inl member
  | transition _ rows | scheduled _ _ rows | cancelled _ _ _ rows =>
    obtain ⟨node, inside, row⟩ := forall₂_mem_right rows member
    have same := row.moves.eq_of_succeeded succeeded
    exact .inl (NodeEntry.ext_fields row.definition same ▸ inside)
  | completed node completedValue result _ completes =>
    rcases mem_rewriteAt member with rfl | ⟨inside, _⟩
    · exact .inr ⟨node, result, completes, rfl⟩
    · exact .inl inside

theorem Permitted.results (permitted : Permitted clock scope before change)
    (member : result ∈ change.results) :
    change.results = [result] ∧ before.resultAt result.nodeId = none ∧
      ∃ node, ∃ value ∈ change.kept, Completes before node value result := by
  cases permitted with
  | completed node value recorded _ completes _ absent =>
    obtain rfl := mem_singleton.mp member
    refine ⟨rfl, completes.nodeId ▸ absent, node, value, ?_, completes⟩
    have present : value.nodeId ∈ before.nodes.map NodeEntry.nodeId := by
      rw [NodeEntry.nodeId, completes.definition]
      exact mem_map_of_mem completes.member
    exact rowAt_mem (rowAt_rewriteAt_self _ rfl present)
  | _ => simp at member

theorem Commits.mem_of_terminal (committed : Commits clock before change after)
    (permitted : Permitted clock scope before change) (formed : WellFormed before)
    (member : node ∈ before.nodes) (terminal : node.status.Terminal) : node ∈ after.nodes := by
  obtain ⟨value, inside, advance⟩ := forall₂_mem_left (permitted.rows formed.distinct) member
  rw [advance.eq_of_terminal terminal] at inside
  exact committed.nodes.mem_iff.mpr (mem_append_left _ inside)

theorem Commits.resultsAgree (committed : Commits clock before change after)
    (permitted : Permitted clock scope before change) (formed : WellFormed before)
    (agree : ResultsAgree before) : ResultsAgree after where
  distinct := by
    rw [committed.results, map_append, nodup_append']
    refine ⟨agree.distinct, ?_, ?_⟩
    · cases permitted with
      | completed => simp
      | _ => simp
    · rw [disjoint_right]
      intro nodeId added
      obtain ⟨result, member, rfl⟩ := mem_map.mp added
      exact rowAt_eq_none_iff.mp (permitted.results member).2.1
  recorded value member succeeded := by
    rcases mem_append.mp (committed.nodes.mem_iff.mp member) with kept | added
    · rcases permitted.succeeded kept succeeded with
        inside | ⟨node, result, completes, results⟩
      · obtain ⟨result, recorded, owned⟩ := agree.recorded value inside succeeded
        refine ⟨result, ?_, owned.congr committed.graphId⟩
        rw [committed.results]
        exact mem_append_left _ recorded
      · refine ⟨result, ?_, completes.resultOf.congr committed.graphId⟩
        rw [committed.results, results]
        simp
    · rcases permitted.added with none | extends'
      · simp [none] at added
      · exact absurd succeeded (initial_not_succeeded (extends'.fresh value added))
  owned result member := by
    rw [committed.results] at member
    rcases mem_append.mp member with old | new
    · obtain ⟨node, inside, owned⟩ := agree.owned result old
      refine ⟨node, ?_, owned.congr committed.graphId⟩
      exact committed.mem_of_terminal permitted formed inside (.inl owned.status)
    · obtain ⟨_, _, node, value, kept, completes⟩ := permitted.results new
      refine ⟨value, ?_, completes.resultOf.congr committed.graphId⟩
      exact committed.nodes.mem_iff.mpr (mem_append_left _ kept)

structure Readiness (records : TaskGraphRecords) : Prop where
  claimed_of_bound : ∀ node ∈ records.nodes, node.state.executionId ≠ none → 1 ≤ node.state.fence
  ready_of_claimed : ∀ node ∈ records.nodes, 1 ≤ node.state.fence →
    node.definition.dependencyStatus (statusIn records.entryAt) = .ready

theorem Created.readiness (created : Created clock records) : Readiness records where
  claimed_of_bound node member bound :=
    absurd (initial_unclaimed (created.fresh node member)).2 bound
  ready_of_claimed node member claimed := by
    rw [(initial_unclaimed (created.fresh node member)).1] at claimed
    cases claimed

theorem Commits.dependencies_ready (committed : Commits clock before change after)
    (permitted : Permitted clock scope before change) (formed : WellFormed before)
    {definition : TaskNode}
    (ready : definition.dependencyStatus (statusIn before.entryAt) = .ready) :
    definition.dependencyStatus (statusIn after.entryAt) = .ready := by
  apply TaskNode.dependencyStatus_ready_stable ready
  intro dependency _ terminal
  cases found : before.entryAt dependency with
  | none => simp [statusIn, found, TaskStatus.Terminal] at terminal
  | some node =>
    simp only [statusIn, found] at terminal ⊢
    obtain ⟨value, same, advance⟩ := committed.entryAt permitted formed.distinct found
    rw [same, advance.eq_of_terminal terminal]

theorem Permitted.ready_of_claimed (permitted : Permitted clock scope before change)
    (formed : WellFormed before) (readiness : Readiness before)
    (member : value ∈ change.kept) (claimed : 1 ≤ value.state.fence) :
    value.definition.dependencyStatus (statusIn before.entryAt) = .ready := by
  have moved : ∀ {left right : List NodeEntry}, left = before.nodes →
      RowsMove clock.now scope.writes left right → value ∈ right →
      value.definition.dependencyStatus (statusIn before.entryAt) = .ready := by
    rintro _ right rfl rows inside
    obtain ⟨node, member, row⟩ := forall₂_mem_right rows inside
    rw [row.definition]
    exact readiness.ready_of_claimed node member (row.moves.fence_eq ▸ claimed)
  cases permitted with
  | claimed node claimedValue _ _ _ claimable definition =>
    rcases mem_rewriteAt member with rfl | ⟨inside, _⟩
    · rw [definition]
      exact claimable.dependencies_ready
    · exact readiness.ready_of_claimed value inside claimed
  | held node heldValue inside _ row =>
    exact moved rfl (replaceNode_rowsMove formed.distinct inside row) member
  | prepared | repaired => exact readiness.ready_of_claimed value member claimed
  | transition _ rows | scheduled _ _ rows | cancelled _ _ _ rows => exact moved rfl rows member
  | completed node completedValue _ _ completes =>
    rcases mem_rewriteAt member with rfl | ⟨inside, _⟩
    · rw [completes.definition]
      exact readiness.ready_of_claimed node completes.member completes.claimed
    · exact readiness.ready_of_claimed value inside claimed

theorem Commits.readiness (committed : Commits clock before change after)
    (permitted : Permitted clock scope before change) (formed : WellFormed before)
    (readiness : Readiness before) : Readiness after where
  claimed_of_bound value member bound := by
    rcases committed.origin permitted formed.distinct member with
      ⟨node, inside, advance⟩ | added
    · exact advance.claimed_of_bound (readiness.claimed_of_bound node inside) bound
    · rcases permitted.added with none | extends'
      · simp [none] at added
      · exact absurd (initial_unclaimed (extends'.fresh value added)).2 bound
  ready_of_claimed value member claimed := by
    rcases mem_append.mp (committed.nodes.mem_iff.mp member) with kept | added
    · exact committed.dependencies_ready permitted formed
        (permitted.ready_of_claimed formed readiness kept claimed)
    · rcases permitted.added with none | extends'
      · simp [none] at added
      · rw [(initial_unclaimed (extends'.fresh value added)).1] at claimed
        cases claimed

def SlotsBounded (time : Time) (records : TaskGraphRecords) : Prop :=
  ∀ later, time ≤ later → activeNodes later records.nodes ≤ records.admission.limits.maxConcurrency

theorem activeNodes_fresh
    (fresh : ∀ entry ∈ added, initialNode (fun _ => .pending) entry.definition = .ok entry) :
    activeNodes now added = 0 := by
  rw [activeNodes, countP_eq_zero]
  intro entry member
  simpa using initial_not_active (fresh entry member)

theorem Created.slotsBounded (created : Created clock records) : SlotsBounded time records := by
  intro later _
  rw [activeNodes_fresh created.fresh]
  exact Nat.zero_le _

theorem activeNodes_le_of_active (rows : List.Forall₂ (fun node value : NodeEntry =>
      value.state.Active time → node.state.Active now) left right) :
    activeNodes time right ≤ activeNodes now left := by
  apply countP_le_of_forall₂
  simpa using rows

theorem RowsMove.activeNodes_le (rows : RowsMove now writes left right) (later : now ≤ time) :
    activeNodes time right ≤ activeNodes now left :=
  activeNodes_le_of_active (rows.imp fun _ _ row => row.moves.active later)

theorem activeNodes_antitone (later : now ≤ time) :
    activeNodes time nodes ≤ activeNodes now nodes :=
  activeNodes_le_of_active (forall₂_same.mpr fun _ _ active => active.mono later)

theorem Permitted.activeNodes_le (permitted : Permitted clock scope before change)
    (formed : WellFormed before) (bounded : activeNodes clock.now before.nodes ≤
      before.admission.limits.maxConcurrency) (later : clock.now ≤ time) :
    activeNodes time change.kept ≤ before.admission.limits.maxConcurrency := by
  cases permitted with
  | claimed node value _ _ _ claimable =>
    calc activeNodes time (replaceNode before.nodes value)
        ≤ activeNodes time before.nodes + 1 := countP_rewriteAt_le formed.distinct
      _ ≤ activeNodes clock.now before.nodes + 1 := Nat.succ_le_succ (activeNodes_antitone later)
      _ ≤ before.admission.limits.maxConcurrency := claimable.slot
  | held node value member _ row =>
    exact ((replaceNode_rowsMove formed.distinct member row).activeNodes_le later).trans bounded
  | prepared | repaired => exact (activeNodes_antitone later).trans bounded
  | transition _ rows | scheduled _ _ rows | cancelled _ _ _ rows =>
    exact (rows.activeNodes_le later).trans bounded
  | completed node value _ _ completes =>
    refine (activeNodes_le_of_active ?_).trans bounded
    apply forall₂_rewriteAt
    · exact fun current _ _ active => active.mono later
    · intro current _ _ active
      rw [completes.state] at active
      simp [TaskNodeFields.Active, TaskNodeFields.Live, TaskNodeFields.succeeded] at active

theorem Commits.slotsBounded (committed : Commits clock before change after)
    (permitted : Permitted clock scope before change) (formed : WellFormed before)
    (bounded : SlotsBounded time before) (current : time ≤ clock.now) :
    SlotsBounded clock.fresh after := by
  intro later after'
  have kept := permitted.activeNodes_le formed (bounded clock.now current)
    (clock.ordered.trans after')
  have added : activeNodes later change.added = 0 := by
    rcases permitted.added with none | extends'
    · rw [none]
      rfl
    · exact activeNodes_fresh extends'.fresh
  rw [committed.admission]
  calc activeNodes later after.nodes
      = activeNodes later (change.kept ++ change.added) := committed.nodes.countP_eq _
    _ = activeNodes later change.kept + activeNodes later change.added := countP_append
    _ ≤ before.admission.limits.maxConcurrency := by rw [added]; exact kept

structure SoundGraph (time : Time) (records : TaskGraphRecords) : Prop where
  graphId_present : blank records.graphId = false
  formed : WellFormed records
  reported : ∀ node ∈ records.nodes, Reported node.state.toTaskNodeFields
  header : HeaderSound records
  results : ResultsAgree records
  readiness : Readiness records
  slots : SlotsBounded time records
  journal : Journaled records

variable {repo : TaskRepository} {first last system : System} {graphId : String}

theorem Created.graphId_present (created : Created clock records) :
    blank records.graphId = false := by
  obtain ⟨graph, same, _⟩ := created.graph
  rw [← same]
  exact graph.graphId_present

theorem Created.sound (created : Created clock records) : SoundGraph time records where
  graphId_present := created.graphId_present
  formed := created.wellFormed
  reported := created.reported
  header := created.headerSound
  results := created.resultsAgree
  readiness := created.readiness
  slots := created.slotsBounded
  journal := created.journaled

theorem Commits.sound (committed : Commits clock before change after)
    (permitted : Permitted clock scope before change) (sound : SoundGraph time before)
    (current : time ≤ clock.now) : SoundGraph clock.fresh after where
  graphId_present := committed.graphId ▸ sound.graphId_present
  formed := committed.wellFormed permitted sound.formed
  reported := committed.reported permitted sound.formed sound.reported
  header := committed.headerSound permitted sound.formed sound.header
  results := committed.resultsAgree permitted sound.formed sound.results
  readiness := committed.readiness permitted sound.formed sound.readiness
  slots := committed.slotsBounded permitted sound.formed sound.slots current
  journal := committed.journaled permitted sound.formed sound.journal

theorem SoundGraph.later {later : Time} (sound : SoundGraph time records)
    (ordered : time ≤ later) : SoundGraph later records :=
  { sound with slots := fun moment after => sound.slots moment (ordered.trans after) }

def SoundSystem (system : System) : Prop :=
  ∀ graphId records, system.store.graphs graphId = some records →
    records.graphId = graphId ∧ SoundGraph system.time records

theorem SoundSystem.wellKeyed (sound : SoundSystem system) :
    WellKeyed system.store := fun graphId records found =>
  ⟨(sound graphId records found).1, (sound graphId records found).2.formed.distinct⟩

theorem step_storeStep (sound : SoundSystem first)
    (step : (taskSystem repo).step first call last) :
    StoreStep call.clock call.operation.scope first.store last.store :=
  TaskRepository.respond_storeStep sound.wellKeyed step.2.2

theorem GraphStep.sound (step : GraphStep clock scope before after)
    (sound : SoundGraph time before) (current : time ≤ clock.now) :
    SoundGraph clock.fresh after := by
  rcases step with rfl | ⟨_, permitted, committed⟩
  · exact sound.later (current.trans clock.ordered)
  · exact committed.sound permitted sound current

theorem step_soundSystem (sound : SoundSystem first)
    (step : (taskSystem repo).step first call last) : SoundSystem last := by
  intro graphId records found
  have fate := step_storeStep sound step graphId
  obtain ⟨current, fresh, _⟩ := step
  rw [found] at fate
  rw [fresh]
  cases before : first.store.graphs graphId with
  | none =>
    rw [before] at fate
    cases fate with
    | created _ created sameId => exact ⟨sameId, created.sound⟩
  | some earlier =>
    rw [before] at fate
    obtain ⟨sameId, soundBefore⟩ := sound graphId earlier before
    cases fate with
    | stepped _ _ step => exact ⟨step.graphId_eq.trans sameId, step.sound soundBefore current⟩

theorem initial_soundSystem (initial : (taskSystem repo).initial system) :
    SoundSystem system := by
  intro graphId records found
  rw [show system.store = .empty from initial] at found
  cases found

theorem soundSystem_of_reachable
    (reachable : (taskSystem repo).Reachable system) : SoundSystem system :=
  reachable.invariant (fun _ => initial_soundSystem) fun _ _ _ _ => step_soundSystem

theorem soundGraph_of_reachable (reachable : (taskSystem repo).Reachable system)
    (found : system.store.graphs graphId = some records) : SoundGraph system.time records :=
  (soundSystem_of_reachable reachable graphId records found).2

def Store.nodeAt (store : Store) (graphId nodeId : String) : Option NodeEntry :=
  (store.graphs graphId).bind fun records => records.entryAt nodeId

theorem Store.nodeAt_eq_some {store : Store} :
    store.nodeAt graphId nodeId = some node ↔ ∃ records, store.graphs graphId = some records ∧
        records.entryAt nodeId = some node := by
  simp [nodeAt, Option.bind_eq_some_iff]

theorem step_graph (sound : SoundSystem first) (step : (taskSystem repo).step first call last)
    (found : first.store.graphs graphId = some before) :
    ∃ after, last.store.graphs graphId = some after ∧
      GraphStep call.clock (call.operation.scope graphId) before after := by
  have fate := step_storeStep sound step graphId
  rw [found] at fate
  cases grown : last.store.graphs graphId with
  | none =>
    rw [grown] at fate
    cases fate
  | some after =>
    rw [grown] at fate
    cases fate with
    | stepped _ _ graphStep => exact ⟨after, rfl, graphStep⟩

/-- Every graph of the first system is still there, with its records related. -/
def GraphsRelated (relation : TaskGraphRecords → TaskGraphRecords → Prop)
    (first last : System) : Prop :=
  ∀ graphId before, first.store.graphs graphId = some before →
    ∃ after, last.store.graphs graphId = some after ∧ relation before after

variable {relation : TaskGraphRecords → TaskGraphRecords → Prop}

theorem GraphsRelated.refl (relationRefl : ∀ records, relation records records) (system : System) :
    GraphsRelated relation system system :=
  fun _ before found => ⟨before, found, relationRefl before⟩

theorem GraphsRelated.trans
    (relationTrans : ∀ first middle last, relation first middle → relation middle last →
      relation first last)
    (left : GraphsRelated relation first middle) (right : GraphsRelated relation middle last) :
    GraphsRelated relation first last := by
  intro graphId records found
  obtain ⟨inner, foundInner, related⟩ := left graphId records found
  obtain ⟨outer, foundOuter, related'⟩ := right graphId inner foundInner
  exact ⟨outer, foundOuter, relationTrans _ _ _ related related'⟩

theorem run_graphHistory (refl : ∀ records, relation records records) (trans : ∀ first middle last,
      relation first middle → relation middle last → relation first last)
    (changed : ∀ time clock scope before change after, SoundGraph time before →
      Permitted clock scope before change → Commits clock before change after →
      relation before after) (reachable : (taskSystem repo).Reachable first)
    (run : Machine.Run (taskSystem repo) first calls last) :
    GraphsRelated relation first last := by
  apply run.relates (.refl refl) (fun _ _ _ => .trans trans) ?_ reachable
  intro first call last reachable step graphId before found
  have sound := soundSystem_of_reachable reachable
  obtain ⟨after, grown, graphStep⟩ := step_graph sound step found
  refine ⟨after, grown, ?_⟩
  rcases graphStep with rfl | ⟨change, permitted, committed⟩
  · exact refl _
  · exact changed _ _ _ _ change _ (sound graphId before found).2 permitted committed

def RowsDescend (before after : TaskGraphRecords) : Prop :=
  ∀ nodeId node, before.entryAt nodeId = some node →
    ∃ value, after.entryAt nodeId = some value ∧ Descends node value

theorem RowsDescend.refl (records : TaskGraphRecords) : RowsDescend records records :=
  fun _ node found => ⟨node, found, .refl node⟩

theorem RowsDescend.trans (first middle last : TaskGraphRecords)
    (left : RowsDescend first middle) (right : RowsDescend middle last) :
    RowsDescend first last := by
  intro nodeId node found
  obtain ⟨inner, foundInner, descends⟩ := left nodeId node found
  obtain ⟨outer, foundOuter, descends'⟩ := right nodeId inner foundInner
  exact ⟨outer, foundOuter, descends.trans descends'⟩

theorem Commits.rowsDescend (committed : Commits clock before change after)
    (permitted : Permitted clock scope before change) (sound : SoundGraph time before) :
    RowsDescend before after := by
  intro nodeId node found
  obtain ⟨value, same, advance⟩ := committed.entryAt permitted sound.formed.distinct found
  exact ⟨value, same, advance.descends⟩

theorem run_nodeAt (reachable : (taskSystem repo).Reachable first)
    (run : Machine.Run (taskSystem repo) first calls last)
    (found : first.store.nodeAt graphId nodeId = some node) :
    ∃ value, last.store.nodeAt graphId nodeId = some value ∧ Descends node value := by
  obtain ⟨records, foundGraph, foundRow⟩ := Store.nodeAt_eq_some.mp found
  obtain ⟨after, foundAfter, descend⟩ :=
    run_graphHistory .refl .trans
      (fun _ _ _ _ _ _ sound permitted committed =>
        committed.rowsDescend permitted sound) reachable run graphId records foundGraph
  obtain ⟨value, same, descends⟩ := descend nodeId node foundRow
  exact ⟨value, Store.nodeAt_eq_some.mpr ⟨after, foundAfter, same⟩, descends⟩

namespace TaskRepository

def called (repo : TaskRepository) (system : System) (clock : Clock)
    (operation : Operation) : Call :=
  ⟨clock, operation, (repo.respond clock operation system.store).1⟩

def next (repo : TaskRepository) (system : System) (clock : Clock)
    (operation : Operation) : System :=
  ⟨(repo.respond clock operation system.store).2, clock.fresh⟩

theorem step_next (current : system.time ≤ clock.now) :
    (taskSystem repo).step system (repo.called system clock operation)
      (repo.next system clock operation) :=
  ⟨current, rfl, rfl⟩

def play (repo : TaskRepository) : System → List (Clock × Operation) → List Call × System
  | system, [] => ([], system)
  | system, (clock, operation) :: rest =>
    let played := repo.play (repo.next system clock operation) rest
    (repo.called system clock operation :: played.1, played.2)

def Paced : Time → List (Clock × Operation) → Prop
  | _, [] => True
  | time, (clock, _) :: rest => time ≤ clock.now ∧ Paced clock.fresh rest

instance decidablePaced :
    (time : Time) → (schedule : List (Clock × Operation)) → Decidable (Paced time schedule)
  | _, [] => .isTrue trivial
  | time, (clock, _) :: rest =>
    have := decidablePaced clock.fresh rest
    inferInstanceAs (Decidable (time ≤ clock.now ∧ Paced clock.fresh rest))

variable {schedule : List (Clock × Operation)}

theorem play_run (paced : Paced system.time schedule) :
    Machine.Run (taskSystem repo) system (repo.play system schedule).1
      (repo.play system schedule).2 := by
  induction schedule generalizing system with
  | nil => exact .nil system
  | cons head rest ih =>
    obtain ⟨clock, operation⟩ := head
    obtain ⟨current, pacedRest⟩ := paced
    exact .cons (step_next current) (ih pacedRest)

theorem play_restricted {allowed : System → Call → Prop} (paced : Paced system.time schedule)
    (allows : ∀ system, ∀ timed ∈ schedule,
      allowed system (repo.called system timed.1 timed.2)) :
    Machine.Run ((taskSystem repo).restrict allowed) system
      (repo.play system schedule).1 (repo.play system schedule).2 := by
  induction schedule generalizing system with
  | nil => exact .nil system
  | cons head rest ih =>
    obtain ⟨current, pacedRest⟩ := paced
    exact .cons ⟨step_next current, allows system head mem_cons_self⟩
      (ih pacedRest fun system timed member =>
        allows system timed (mem_cons_of_mem head member))

end TaskRepository

def emptySystem : System := ⟨.empty, 0⟩

theorem play_reachable (paced : TaskRepository.Paced 0 schedule) :
    (taskSystem repo).Reachable (repo.play emptySystem schedule).2 :=
  ⟨emptySystem, _, rfl,
    TaskRepository.play_run (show TaskRepository.Paced emptySystem.time schedule from paced)⟩

def sampleDigest : JsonValue → String
  | .obj (("principal", _) :: _) =>
    "6bdcf7da78396693f4f2ea8955b95d677c5dec918bd44172710b882e0abce060"
  | .obj [("graph_id", _), ("status", _)] =>
    "7439c154404c9466b2bf7b48e1a510345c222d13a84e795e9427f9ddb57d6a8e"
  | _ => "74234e98afe7498fb5daf1f36ac2d78acc339464f950703b8c019892f982b90b"

def sampleRepository : TaskRepository where
  namespaceId := "runtime"
  tenantId := "tenant"
  sha256 :=
    { digest := sampleDigest
      digest_isSha256 := by
        intro value
        unfold sampleDigest
        split <;> exact isSha256_ofList (by decide) }

def sampleNode (nodeId : String) (expander : Option TaskExpanderRef)
    (present : blank nodeId = false) : TaskNode :=
  { nodeId := nodeId, task := some ⟨"echo", 1⟩, expander := expander
    invocation := [("input", .obj [])], nodeId_present := present }

def sampleGraph : TaskGraph where
  graphId := "graph"
  nodes := [sampleNode "a" (some ⟨"grow", 1⟩) (by decide), sampleNode "b" none (by decide)]
  graphId_present := by decide
  ids_nodup := by decide
  closed := by decide
  complete := by decide

def sampleAdmission : TaskGraphAdmission where
  graphId := "graph"
  principal := ⟨"user", "tenant", "user"⟩
  operationId := "358970fc5c749bdd282113419cba4f22c2eeb4523a9d4445d721a5b86c7113ca"
  initialRequestDigest :=
    "6bdcf7da78396693f4f2ea8955b95d677c5dec918bd44172710b882e0abce060"
  operationId_isSha256 := isSha256_ofList (by decide)
  requestDigest_isSha256 := isSha256_ofList (by decide)

def tick (time : Time) : Clock := ⟨time, time, le_refl time⟩

def sampleLease (nodeId owner : String) (fence : Nat) (leaseExpiresAt : Time)
    (nodeId_present : blank nodeId = false := by decide)
    (owner_valid : validLeaseOwner owner = true := by decide)
    (fence_positive : 1 ≤ fence := by decide) : TaskLease :=
  { graphId := "graph", nodeId := nodeId, tenantId := "tenant", owner := owner
    fence := fence, leaseExpiresAt := leaseExpiresAt, owner_valid := owner_valid
    nodeId_present := nodeId_present, fence_positive := fence_positive }

def sampleResult : String :=
  "48208f9428d64634bd8e28ff345bf0eab60d53c18fa2fbdb0b9bc1e84df2b5f6"

def sampleError : String :=
  "76ee657c445f993a2d3bf8955cef65d1791fd3d940b7665c3b24330d7a7debce"

def firstLease : TaskLease := sampleLease "a" "worker-1" 1 60000002

/-- The graph is admitted, and one worker claims and binds the first node. -/
def sampleStart : List (Clock × Operation) :=
  [(tick 1, .admitSubmission sampleAdmission sampleGraph),
    (tick 2, .claim "graph" "a" "tenant" "worker-1" 60),
    (tick 3, .bindExecution firstLease "tenant" "exec-1")]

def sampleCompletion : Operation :=
  .complete
    { lease := some firstLease, tenantId := "tenant"
      executionId := some "exec-1", resultDigest := sampleResult }

/-- The second node waits for the first. -/
def chainGraph : TaskGraph where
  graphId := "graph"
  nodes :=
    [sampleNode "a" none (by decide),
      { nodeId := "b", dependencies := ["a"], task := some ⟨"echo", 1⟩
        invocation := [("input", .obj [])] }]
  graphId_present := by decide
  ids_nodup := by decide
  closed := by decide
  complete := by decide

def chainStart : List (Clock × Operation) :=
  [(tick 1, .admitSubmission sampleAdmission chainGraph),
    (tick 2, .claim "graph" "a" "tenant" "worker-1" 60),
    (tick 3, .bindExecution firstLease "tenant" "exec-1")]

def sampleSystem (schedule : List (Clock × Operation)) : System :=
  (sampleRepository.play emptySystem schedule).2

end Linktools.Persistence
