import Linktools.Library.Paging
import Linktools.Persistence.GraphHeader

namespace Linktools.Persistence

open Linktools.Core Library Linktools.Task List

/-! Pages of a graph's events, read between the calls that add to them. -/

/-- `list_facts` on the event stream of a graph. -/
def eventsAfter (events : List TaskEvent) (afterEventSeq limit : Nat) : List TaskEvent :=
  (events.filter (afterEventSeq < ·.eventSeq)).take limit

/-- At the largest limit no row can be read beyond the page, and a second read looks for one. -/
def hasMoreEvents (events values : List TaskEvent) (limit : Nat) : Bool :=
  limit < values.length ∨ limit = 1000 ∧ values.length = limit ∧
    values.getLast?.any fun last => eventsAfter events last.eventSeq 1 ≠ []

def TaskRepository.listEvents (repo : TaskRepository) (store : Store)
    (graphId tenantId : String) (afterEventSeq limit : Int) :
    Except Raised (List TaskEvent × Option String) := do
  if tenantId ≠ repo.tenantId then return ([], none)
  refuse (afterEventSeq < 0) (.ai .requestFieldInvalid)
  refuse (¬(1 ≤ limit ∧ limit ≤ 1000)) (.ai .pageLimitInvalid)
  let events := (store.graphs graphId).elim [] TaskGraphRecords.events
  let values := eventsAfter events afterEventSeq.toNat (min (limit.toNat + 1) 1000)
  let items := values.take limit.toNat
  refuse (items.map TaskEvent.eventSeq ≠ range' (afterEventSeq.toNat + 1) items.length)
    .integrity
  let next := items.getLast?.map fun last => toString last.eventSeq
  return (items, if hasMoreEvents events values limit.toNat then next else none)

variable {repo : TaskRepository} {store : Store} {events : List TaskEvent}
  {records : TaskGraphRecords} {graphId : String} {afterEventSeq limit : Nat}

theorem eventsAfter_eq (numbered : events.map TaskEvent.eventSeq = range' 1 events.length) :
    eventsAfter events afterEventSeq limit = (events.drop afterEventSeq).take limit := by
  have later : events.filter (afterEventSeq < ·.eventSeq) = events.drop (afterEventSeq + 1 - 1) :=
    filter_consecutive numbered
  rw [eventsAfter, later, Nat.add_sub_cancel]

theorem numbers_page (afterEventSeq limit : Nat)
    (numbered : events.map TaskEvent.eventSeq = range' 1 events.length) :
    ((events.drop afterEventSeq).take limit).map TaskEvent.eventSeq =
      range' (afterEventSeq + 1) (min limit (events.length - afterEventSeq)) := by
  rw [map_take, map_drop, numbered, drop_range', mul_one, add_comm]
  rcases le_total limit (events.length - afterEventSeq) with fits | short
  · rw [take_range'_of_length_ge fits, min_eq_left fits]
  · rw [take_range'_of_length_le short, min_eq_right short]

section

variable (numbered : events.map TaskEvent.eventSeq = range' 1 events.length)
include numbered

theorem last_number (positive : 1 ≤ limit) (more : afterEventSeq < events.length) :
    ((events.drop afterEventSeq).take limit).getLast?.map TaskEvent.eventSeq =
      some (afterEventSeq + min limit (events.length - afterEventSeq)) := by
  rw [← getLast?_map, numbers_page _ _ numbered, getLast?_range', if_neg (by omega)]
  congr 1
  omega

theorem hasMoreEvents_iff (positive : 1 ≤ limit) (bounded : limit ≤ 1000) :
    hasMoreEvents events (eventsAfter events afterEventSeq (min (limit + 1) 1000)) limit = true ↔
      afterEventSeq + limit < events.length := by
  rw [hasMoreEvents, decide_eq_true_eq, eventsAfter_eq numbered]
  have length : ((events.drop afterEventSeq).take (min (limit + 1) 1000)).length =
      min (min (limit + 1) 1000) (events.length - afterEventSeq) := by
    rw [length_take, length_drop]
  cases Nat.lt_or_eq_of_le bounded with
  | inl below => omega
  | inr full =>
    subst full
    by_cases more : afterEventSeq + 1000 ≤ events.length
    case neg => omega
    case pos =>
      have last := last_number numbered positive (show afterEventSeq < events.length by omega)
      rw [min_eq_left (by omega)] at last
      obtain ⟨event, found, seq⟩ := Option.map_eq_some_iff.mp last
      rw [show min (1000 + 1) 1000 = 1000 from rfl] at length ⊢
      simp only [found, Option.any_some, seq, eventsAfter_eq numbered, decide_eq_true_eq, ne_eq,
        take_eq_nil_iff, Nat.one_ne_zero, drop_eq_nil_iff, false_or, true_and]
      omega

end

/-- A page holds the next events, and its cursor is the number of its last event where the graph
has more of them. -/
theorem listEvents_eq (found : store.graphs graphId = some records)
    (numbered : records.events.map TaskEvent.eventSeq = range' 1 records.events.length)
    (positive : 1 ≤ limit) (bounded : limit ≤ 1000) :
    repo.listEvents store graphId repo.tenantId afterEventSeq limit =
      .ok ((records.events.drop afterEventSeq).take limit,
        if afterEventSeq + limit < records.events.length then
          some (toString (afterEventSeq + limit)) else none) := by
  have items : (eventsAfter records.events afterEventSeq (min (limit + 1) 1000)).take limit =
      (records.events.drop afterEventSeq).take limit := by
    rw [eventsAfter_eq numbered, take_take, min_eq_left (by omega)]
  have numbers := numbers_page afterEventSeq limit numbered
  rw [TaskRepository.listEvents, if_neg (not_not.mpr rfl), refuse_of_not (by omega), ok_bind,
    refuse_of_not (by omega), ok_bind, found]
  simp only [Option.elim_some, Int.toNat_natCast, items]
  rw [refuse_of_not (by rw [numbers, length_take, length_drop]; simp), ok_bind]
  by_cases more : afterEventSeq + limit < records.events.length
  case pos =>
    have last := last_number numbered positive
      (show afterEventSeq < records.events.length by omega)
    rw [min_eq_left (by omega)] at last
    obtain ⟨event, final, seq⟩ := Option.map_eq_some_iff.mp last
    rw [if_pos ((hasMoreEvents_iff numbered positive bounded).mpr more), if_pos more, final,
      Option.map_some, seq]
    rfl
  case neg =>
    rw [if_neg (mt (hasMoreEvents_iff numbered positive bounded).mp more), if_neg more]
    rfl

/-- Behind which event a reader asks for its next page. -/
def cursor (position : Nat) (seen : List TaskEvent) : Nat :=
  (seen.getLast?.map TaskEvent.eventSeq).getD position

/-- A reader of a graph's events, between calls of the repository: every page is read behind the
last event of the page before it. -/
inductive Watches (repo : TaskRepository) (graphId : String) (first : System)
    (position : Nat) : System → List TaskEvent → Prop
  | start : Watches repo graphId first position first []
  | turn {middle last : System} {calls : List Call} {seen : List TaskEvent}
      (watches : Watches repo graphId first position middle seen)
      (run : Machine.Run (taskSystem repo) middle calls last) :
      Watches repo graphId first position last seen
  | page {last : System} {seen items : List TaskEvent} {limit : Nat} {next : Option String}
      (watches : Watches repo graphId first position last seen)
      (positive : 1 ≤ limit) (bounded : limit ≤ 1000)
      (fetched : repo.listEvents last.store graphId repo.tenantId
        (cursor position seen : Nat) limit = .ok (items, next)) :
      Watches repo graphId first position last (seen ++ items)

theorem cursor_eq (numbered : events.map TaskEvent.eventSeq = range' 1 events.length)
    (front : seen <+: events.drop position) : cursor position seen = position + seen.length := by
  unfold cursor
  cases Nat.eq_zero_or_pos seen.length with
  | inl none =>
    rw [length_eq_zero_iff] at none
    rw [none]
    rfl
  | inr some =>
    have length := front.length_le
    rw [length_drop] at length
    rw [prefix_iff_eq_take.mp front, last_number numbered some (by omega)]
    simp only [Option.getD_some, length_take, length_drop]

variable {first last : System} {before : TaskGraphRecords} {position : Nat}
  {seen : List TaskEvent}

theorem numbered_of_reachable (reachable : (taskSystem repo).Reachable last)
    (found : last.store.graphs graphId = some records) :
    records.events.map TaskEvent.eventSeq = range' 1 records.events.length := by
  have journaled := (soundGraph_of_reachable reachable found).journal
  rw [← journaled.sequence_length]
  exact journaled.sequence

theorem Watches.shows (watches : Watches repo graphId first position last seen)
    (reachable : (taskSystem repo).Reachable first)
    (found : first.store.graphs graphId = some before) :
    (taskSystem repo).Reachable last ∧ ∃ records,
      last.store.graphs graphId = some records ∧ seen <+: records.events.drop position := by
  induction watches with
  | start => exact ⟨reachable, before, found, nil_prefix⟩
  | turn _ run ih =>
    obtain ⟨reached, records, stored, front⟩ := ih
    have grown : GraphsRelated (fun before after => before.events <+: after.events) _ _ :=
      run_graphHistory (fun _ => prefix_rfl) (fun _ _ _ => .trans)
        (fun _ _ _ _ _ _ _ _ committed => committed.events ▸ prefix_append _ _) reached run
    obtain ⟨after, kept, extends'⟩ := grown graphId records stored
    exact ⟨reached.run run, after, kept, front.trans (extends'.drop position)⟩
  | @page last seen items limit next _ positive bounded fetched ih =>
    obtain ⟨reached, records, stored, front⟩ := ih
    rw [cursor_eq (numbered_of_reachable reached stored) front,
      listEvents_eq stored (numbered_of_reachable reached stored) positive bounded] at fetched
    cases fetched
    refine ⟨reached, records, stored, ?_⟩
    rw [← drop_drop]
    calc seen ++ _ <+: seen ++ (records.events.drop position).drop seen.length :=
          (prefix_append_right_inj seen).mpr (List.take_prefix _ _)
      _ = records.events.drop position := prefix_iff_eq_append.mp front

/-- Whatever calls come between its pages, a reader gets every event behind its start once and in
order, no page fails, and a page without a cursor is one that has brought the last event. -/
theorem event_watches_miss_nothing (reachable : (taskSystem repo).Reachable first)
    (found : first.store.graphs graphId = some before)
    (watches : Watches repo graphId first position last seen) :
    ∃ records, last.store.graphs graphId = some records ∧
      seen <+: records.events.drop position ∧
      ∀ limit : Nat, 1 ≤ limit → limit ≤ 1000 → ∃ items next,
        repo.listEvents last.store graphId repo.tenantId
            (cursor position seen : Nat) limit = .ok (items, next) ∧
          seen ++ items = (records.events.drop position).take (seen.length + limit) ∧
          (next = none ↔ seen ++ items = records.events.drop position) := by
  obtain ⟨reached, records, stored, front⟩ := watches.shows reachable found
  refine ⟨records, stored, front, fun limit positive bounded => ?_⟩
  have numbered := numbered_of_reachable reached stored
  have page : seen ++ (records.events.drop (position + seen.length)).take limit =
      (records.events.drop position).take (seen.length + limit) := by
    rw [← drop_drop, take_add, ← prefix_iff_eq_take.mp front]
  rw [cursor_eq numbered front]
  refine ⟨_, _, listEvents_eq stored numbered positive bounded, page, ?_⟩
  rw [page, take_eq_self_iff, length_drop]
  split
  case isTrue more => exact iff_of_false nofun (by omega)
  case isFalse all => exact iff_of_true rfl (by omega)

/-- A page of two events, a cancellation of the graph, and where the page stands afterwards. -/
theorem sample_event_watch_misses_nothing : ∃ items next,
    sampleRepository.listEvents sampleFailed.store "graph" sampleRepository.tenantId 0 2 =
      .ok (items, next) ∧ ∃ records, sampleOverridden.store.graphs "graph" = some records ∧
        items <+: records.events := by
  obtain ⟨_, found, _⟩ := Option.map_eq_some_iff.mp sampleFailed_status
  obtain ⟨_, _, _, pages⟩ :=
    @event_watches_miss_nothing _ _ _ _ _ 0 _ sampleFailed_reachable found .start
  obtain ⟨items, next, fetched, _⟩ := pages 2 (by omega) (by omega)
  have run : Machine.Run (taskSystem sampleRepository) sampleFailed [sampleOverride]
    sampleOverridden := sampleOverride_run.of_restrict
  obtain ⟨records, kept, front, _⟩ := event_watches_miss_nothing sampleFailed_reachable found
    (.turn (.page .start (by omega) (by omega) fetched) run)
  exact ⟨items, next, fetched, records, kept, front⟩

end Linktools.Persistence
