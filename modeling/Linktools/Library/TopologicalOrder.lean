import Mathlib.Data.Set.Finite.List

namespace Linktools.Library

open Function

/-! Kahn's algorithm with a priority queue of the nodes whose remaining indegree is zero. -/

structure Kahn (κ : Type*) where
  indegree : κ → Nat
  ready : List κ
  order : List κ

namespace Kahn

variable {κ : Type*} [LinearOrder κ]

def dependents (nodes : List κ) (dependencies : κ → List κ) (key : κ) : List κ :=
  nodes.flatMap fun node =>
    ((dependencies node).filter (· = key)).map fun _ => node

def start (nodes : List κ) (dependencies : κ → List κ) : Kahn κ where
  indegree node := (dependencies node).length
  ready :=
    (nodes.filter fun node => (dependencies node).length = 0).insertionSort (· ≤ ·)
  order := []

def release (state : Kahn κ) (dependent : κ) : Kahn κ where
  indegree := update state.indegree dependent (state.indegree dependent - 1)
  ready :=
    if state.indegree dependent - 1 = 0 then
      state.ready.orderedInsert (· ≤ ·) dependent
    else state.ready
  order := state.order

def emit (nodes : List κ) (dependencies : κ → List κ) (state : Kahn κ)
    (key : κ) (rest : List κ) : Kahn κ :=
  (dependents nodes dependencies key).foldl release
    { state with ready := rest, order := state.order ++ [key] }

/-- The loop `while ready`.  Every round emits a new node, so the number of nodes
bounds the rounds (`drain_ready`). -/
def drain (nodes : List κ) (dependencies : κ → List κ) : Nat → Kahn κ → Kahn κ
  | 0, state => state
  | rounds + 1, state =>
    match state.ready with
    | [] => state
    | key :: rest =>
      drain nodes dependencies rounds (emit nodes dependencies state key rest)

end Kahn

section Order

variable {κ : Type*} [LinearOrder κ]

def topologicalOrder (nodes : List κ) (dependencies : κ → List κ) : List κ :=
  (Kahn.drain nodes dependencies nodes.length (Kahn.start nodes dependencies)).order

def DependenciesFirst (dependencies : κ → List κ) (keys : List κ) : Prop :=
  ∀ before key after, keys = before ++ key :: after →
    ∀ dependency ∈ dependencies key, dependency ∈ before

variable {dependencies : κ → List κ}

omit [LinearOrder κ] in
theorem DependenciesFirst.concat (first : DependenciesFirst dependencies keys)
    (settled : ∀ dependency ∈ dependencies key, dependency ∈ keys) :
    DependenciesFirst dependencies (keys ++ [key]) := by
  intro before found after split dependency member
  rcases List.eq_nil_or_concat after with rfl | ⟨after', last, rfl⟩
  · obtain ⟨rfl, same⟩ := List.append_inj' split rfl
    simp only [List.cons.injEq, and_true] at same
    subst same
    exact settled dependency member
  · have shape : keys ++ [key] = (before ++ found :: after') ++ [last] := by
      simpa [List.concat_eq_append] using split
    obtain ⟨inner, _⟩ := List.append_inj' shape rfl
    exact first before found after' inner dependency member

end Order

namespace Kahn

variable {κ : Type*} [LinearOrder κ] {nodes : List κ}
  {dependencies : κ → List κ}

theorem mem_dependents : node ∈ dependents nodes dependencies key ↔
      node ∈ nodes ∧ key ∈ dependencies node := by
  simp only [dependents, List.mem_flatMap, List.mem_map, List.mem_filter, decide_eq_true_eq]
  constructor
  · rintro ⟨found, member, dependency, ⟨inside, rfl⟩, rfl⟩
    exact ⟨member, inside⟩
  · rintro ⟨member, inside⟩
    exact ⟨node, member, key, ⟨inside, rfl⟩, rfl⟩

theorem dependents_nodup (distinct : nodes.Nodup)
    (each : ∀ node ∈ nodes, (dependencies node).Nodup) (key : κ) :
    (dependents nodes dependencies key).Nodup := by
  rw [dependents, List.nodup_flatMap]
  constructor
  · intro node member
    have short : ((dependencies node).filter (· = key)).length ≤ 1 := by
      rw [← List.countP_eq_length_filter]
      have count := List.nodup_iff_count_le_one.mp (each node member) key
      simpa [List.count, beq_eq_decide] using count
    rcases lengthOne : (dependencies node).filter (· = key) with _ | ⟨head, tail⟩
    · exact List.nodup_nil
    · rw [lengthOne] at short
      have tailNil : tail = [] := by
        cases tail with
        | nil => rfl
        | cons => simp at short
      subst tailNil
      exact List.nodup_singleton _
  · refine distinct.imp fun {left right} different => ?_
    simp only [onFun, List.disjoint_left, List.mem_map]
    rintro found ⟨_, _, rfl⟩ ⟨_, _, same⟩
    exact different same.symm

/-- What a round's releases do: they leave the order alone, lower each listed
indegree once and queue exactly those that drop to zero. -/
theorem foldl_release (released : List κ) (distinct : released.Nodup)
    (state : Kahn κ) : (released.foldl release state).order = state.order ∧
    (∀ key, (released.foldl release state).indegree key =
      if key ∈ released then state.indegree key - 1 else state.indegree key) ∧
    (∀ key, key ∈ (released.foldl release state).ready ↔
      key ∈ state.ready ∨ (key ∈ released ∧ state.indegree key - 1 = 0)) ∧
    (state.ready.Nodup → (∀ key ∈ released, key ∉ state.ready) →
      (released.foldl release state).ready.Nodup) := by
  induction released generalizing state with
  | nil => simp
  | cons head tail ih =>
    obtain ⟨headFresh, tailDistinct⟩ := List.nodup_cons.mp distinct
    obtain ⟨order, indegree, ready, nodup⟩ := ih tailDistinct (state.release head)
    simp only [List.foldl_cons]
    refine ⟨order, ?_, ?_, ?_⟩
    · intro key
      rw [indegree key]
      by_cases same : key = head
      · subst same
        simp [headFresh, release]
      · simp [release, same]
    · intro key
      rw [ready key]
      by_cases same : key = head
      · subst same
        simp only [headFresh, false_and, or_false, List.mem_cons, true_and, release]
        split <;> simp_all
      · simp only [release, List.mem_cons, same, false_or, update_of_ne same]
        split <;> simp [same]
    · intro distinctReady apart
      apply nodup
      · simp only [release]
        split
        · rw [(List.perm_orderedInsert _ _ _).nodup_iff, List.nodup_cons]
          exact ⟨apart head (by simp), distinctReady⟩
        · exact distinctReady
      · intro key member
        have different : key ≠ head := fun same => headFresh (same ▸ member)
        have outside := apart key (by simp [member])
        simp only [release]
        split <;> simp [different, outside]

structure Invariant (nodes : List κ) (dependencies : κ → List κ)
    (state : Kahn κ) : Prop where
  order_nodup : state.order.Nodup
  order_subset : ∀ key ∈ state.order, key ∈ nodes
  ready_nodup : state.ready.Nodup
  ready_iff : ∀ key, key ∈ state.ready ↔ key ∈ nodes ∧ key ∉ state.order ∧ state.indegree key = 0
  indegree_eq : ∀ key ∈ nodes, state.indegree key =
    ((dependencies key).filter (· ∉ state.order)).length
  dependencies_first : DependenciesFirst dependencies state.order

theorem Invariant.start (distinct : nodes.Nodup) :
    Invariant nodes dependencies (start nodes dependencies) where
  order_nodup := List.nodup_nil
  order_subset := by simp [Kahn.start]
  ready_nodup := by
    simp only [Kahn.start]
    rw [(List.perm_insertionSort _ _).nodup_iff]
    exact distinct.filter _
  ready_iff := by
    intro key
    simp only [Kahn.start, List.mem_insertionSort, List.mem_filter,
      decide_eq_true_eq, List.not_mem_nil, not_false_eq_true, true_and]
  indegree_eq := by
    intro key _
    simp [Kahn.start]
  dependencies_first := by
    intro before key after split
    simp [Kahn.start] at split

variable {state : Kahn κ} {key : κ}

theorem Invariant.settled (invariant : Invariant nodes dependencies state)
    (queued : key ∈ state.ready) : ∀ dependency ∈ dependencies key, dependency ∈ state.order := by
  obtain ⟨member, _, zero⟩ := (invariant.ready_iff key).mp queued
  rw [invariant.indegree_eq key member, List.length_eq_zero_iff, List.filter_eq_nil_iff] at zero
  intro dependency inside
  simpa using zero dependency inside

theorem Invariant.ready_of_settled (invariant : Invariant nodes dependencies state)
    (member : key ∈ nodes) (fresh : key ∉ state.order)
    (settled : ∀ dependency ∈ dependencies key, dependency ∈ state.order) : key ∈ state.ready := by
  refine (invariant.ready_iff key).mpr ⟨member, fresh, ?_⟩
  rw [invariant.indegree_eq key member, List.length_eq_zero_iff, List.filter_eq_nil_iff]
  intro dependency depends
  simpa using settled dependency depends

private theorem filter_concat_length {keys order : List κ} (distinct : keys.Nodup)
    (fresh : key ∉ order) : (keys.filter (· ∉ order ++ [key])).length =
      if key ∈ keys then (keys.filter (· ∉ order)).length - 1
      else (keys.filter (· ∉ order)).length := by
  have erased : keys.filter (· ∉ order ++ [key]) = (keys.filter (· ∉ order)).erase key := by
    rw [(distinct.filter _).erase_eq_filter, List.filter_filter]
    apply List.filter_congr
    intro found _
    by_cases same : found = key <;> simp [same]
  rw [erased]
  split
  case isTrue member => exact List.length_erase_of_mem (by simp [member, fresh])
  case isFalse absent =>
      rw [List.erase_of_not_mem]
      simp [absent]

variable {rest : List κ}

section

variable (distinct : nodes.Nodup)
include distinct

section

variable (each : ∀ node ∈ nodes, (dependencies node).Nodup)
include each

theorem Invariant.emit
    (invariant : Invariant nodes dependencies state) (queue : state.ready = key :: rest) :
    Invariant nodes dependencies (emit nodes dependencies state key rest) := by
  have queued : key ∈ state.ready := by simp [queue]
  obtain ⟨keyMember, keyFresh, keyZero⟩ := (invariant.ready_iff key).mp queued
  have settled := invariant.settled queued
  obtain ⟨keyRest, restNodup⟩ := List.nodup_cons.mp (queue ▸ invariant.ready_nodup)
  have restReady : ∀ found, found ∈ rest ↔ found ∈ state.ready ∧ found ≠ key := by
    intro found
    rw [queue, List.mem_cons]
    constructor
    · intro member
      exact ⟨.inr member, fun same => keyRest (same ▸ member)⟩
    · rintro ⟨member, different⟩
      exact member.resolve_left different
  have positive : ∀ found ∈ dependents nodes dependencies key, 0 < state.indegree found := by
    intro found member
    obtain ⟨foundMember, depends⟩ := mem_dependents.mp member
    rw [invariant.indegree_eq found foundMember]
    exact List.length_pos_of_mem (List.mem_filter.mpr ⟨depends, by simpa using keyFresh⟩)
  obtain ⟨order, indegree, ready, nodup⟩ := foldl_release
    (dependents nodes dependencies key) (dependents_nodup distinct each key)
    { state with ready := rest, order := state.order ++ [key] }
  refine ⟨?_, ?_, ?_, ?_, ?_, ?_⟩
  · rw [Kahn.emit, order, List.nodup_append]
    refine ⟨invariant.order_nodup, List.nodup_singleton key, ?_⟩
    intro found member other inside
    rw [List.mem_singleton.mp inside]
    exact fun same => keyFresh (same ▸ member)
  · intro found member
    rw [Kahn.emit, order, List.mem_append, List.mem_singleton] at member
    rcases member with member | rfl
    · exact invariant.order_subset found member
    · exact keyMember
  · apply nodup restNodup
    intro found member inside
    have zero := ((invariant.ready_iff found).mp ((restReady found).mp inside).1).2.2
    have := positive found member
    omega
  · intro found
    rw [Kahn.emit, order, ready, indegree]
    simp only [restReady, invariant.ready_iff, mem_dependents, List.mem_append, List.mem_singleton]
    by_cases depends : key ∈ dependencies found
    · by_cases member : found ∈ nodes
      · have bound := positive found (mem_dependents.mpr ⟨member, depends⟩)
        have different : found ≠ key := by
          rintro rfl
          omega
        have fresh : found ∉ state.order := by
          intro inside
          obtain ⟨before, after, split⟩ := List.append_of_mem inside
          have earlier := invariant.dependencies_first before found after split key depends
          exact keyFresh (split ▸ List.mem_append_left _ earlier)
        simp only [member, depends, and_self, if_true, different, or_false,
          fresh, not_false_eq_true, true_and]
        constructor
        · rintro (⟨zero, _⟩ | zero)
          · omega
          · exact zero
        · exact fun zero => .inr zero
      · simp [member]
    · by_cases different : found = key
      · subst different
        simp [depends]
      · simp [depends, different]
  · intro found member
    rw [Kahn.emit, order, indegree, filter_concat_length (each found member) keyFresh]
    simp only [mem_dependents, member, true_and, invariant.indegree_eq found member]
  · rw [Kahn.emit, order]
    exact invariant.dependencies_first.concat settled

theorem Invariant.drain (rounds : Nat) (invariant : Invariant nodes
    dependencies state) : Invariant nodes dependencies (drain nodes dependencies rounds state) := by
  induction rounds generalizing state with
  | zero => exact invariant
  | succ rounds ih =>
    unfold Kahn.drain
    split
    case h_1 => exact invariant
    case h_2 key rest queue => exact ih (invariant.emit distinct each queue)

theorem emit_order :
    (Kahn.emit nodes dependencies state key rest).order = state.order ++ [key] :=
  (foldl_release _ (dependents_nodup distinct each key) _).1

theorem drain_ready (rounds : Nat) (invariant : Invariant nodes
    dependencies state) (enough : nodes.length ≤ state.order.length + rounds) :
    (drain nodes dependencies rounds state).ready = [] := by
  induction rounds generalizing state with
  | zero =>
    rw [Kahn.drain, List.eq_nil_iff_forall_not_mem]
    intro key queued
    obtain ⟨member, fresh, _⟩ := (invariant.ready_iff key).mp queued
    have longer : (key :: state.order).length ≤ nodes.length :=
      (List.subperm_of_subset
        (List.nodup_cons.mpr ⟨fresh, invariant.order_nodup⟩)
        (List.cons_subset.mpr ⟨member, invariant.order_subset⟩)).length_le
    simp only [List.length_cons] at longer
    omega
  | succ rounds ih =>
    unfold Kahn.drain
    split
    case h_1 empty => exact empty
    case h_2 key rest queue =>
      apply ih (invariant.emit distinct each queue)
      rw [emit_order distinct each, List.length_append, List.length_singleton]
      omega

end

end

theorem foldl_release_sorted (released : List κ) (state : Kahn κ)
    (sorted : state.ready.Pairwise (· ≤ ·)) :
    (released.foldl release state).ready.Pairwise (· ≤ ·) := by
  induction released generalizing state with
  | nil => exact sorted
  | cons head tail ih =>
    apply ih
    simp only [release]
    split
    · exact sorted.orderedInsert head _
    · exact sorted

private theorem nil_le (keys : List κ) : [] ≤ keys := by
  cases keys with
  | nil => exact le_rfl
  | cons head tail => exact (show [] < head :: tail from .nil).le

/-- The queue stays sorted, so a round emits the least node that any order could emit. -/
theorem drain_least (distinct : nodes.Nodup)
    (each : ∀ node ∈ nodes, (dependencies node).Nodup) (rounds : Nat)
    (invariant : Invariant nodes dependencies state) (sorted : state.ready.Pairwise (· ≤ ·)) :
    ∃ tail, (drain nodes dependencies rounds state).order = state.order ++ tail ∧
      ∀ others, (state.order ++ others).Perm nodes →
        DependenciesFirst dependencies (state.order ++ others) → tail ≤ others := by
  induction rounds generalizing state with
  | zero => exact ⟨[], (List.append_nil _).symm, fun others _ _ => nil_le others⟩
  | succ rounds ih =>
    unfold Kahn.drain
    split
    case h_1 => exact ⟨[], (List.append_nil _).symm, fun others _ _ => nil_le others⟩
    case h_2 key rest queue =>
      rw [queue] at sorted
      obtain ⟨below, restSorted⟩ := List.pairwise_cons.mp sorted
      obtain ⟨keyRest, _⟩ := List.nodup_cons.mp (queue ▸ invariant.ready_nodup)
      obtain ⟨tail, drained, least⟩ := ih (invariant.emit distinct each queue)
        (foldl_release_sorted _ _ restSorted)
      rw [emit_order distinct each, List.append_assoc] at drained
      refine ⟨key :: tail, drained, ?_⟩
      intro others visits first
      cases others with
      | nil =>
        obtain ⟨member, fresh, _⟩ := (invariant.ready_iff key).mp (by simp [queue])
        exact absurd (visits.mem_iff.mpr member) (by simpa using fresh)
      | cons head others =>
        have fresh : head ∉ state.order := fun again =>
          (List.nodup_append.mp (visits.nodup_iff.mpr distinct)).2.2 head again head
            List.mem_cons_self rfl
        have queued := invariant.ready_of_settled (visits.mem_iff.mp (by simp)) fresh
          (first state.order head others rfl)
        rw [queue, List.mem_cons] at queued
        rcases queued with rfl | later
        · apply List.cons_le_cons
          apply least others
          · rwa [emit_order distinct each, List.append_assoc]
          · rwa [emit_order distinct each, List.append_assoc]
        · rcases (below head later).eq_or_lt with same | lower
          · rw [same] at keyRest
            exact absurd later keyRest
          · exact (show key :: tail < head :: others from .rel lower).le

end Kahn

section Soundness

variable {κ : Type*} [LinearOrder κ] {nodes : List κ}
  {dependencies : κ → List κ}

theorem topologicalOrder_invariant (distinct : nodes.Nodup)
    (each : ∀ node ∈ nodes, (dependencies node).Nodup) :
    (topologicalOrder nodes dependencies).Nodup ∧
    (∀ key ∈ topologicalOrder nodes dependencies, key ∈ nodes) ∧
    DependenciesFirst dependencies (topologicalOrder nodes dependencies) := by
  have started : Kahn.Invariant nodes dependencies (Kahn.start nodes dependencies) :=
    .start distinct
  have invariant := started.drain distinct each nodes.length
  exact ⟨invariant.order_nodup, invariant.order_subset, invariant.dependencies_first⟩

theorem topologicalOrder_perm (distinct : nodes.Nodup)
    (each : ∀ node ∈ nodes, (dependencies node).Nodup)
    (complete : (topologicalOrder nodes dependencies).length = nodes.length) :
    (topologicalOrder nodes dependencies).Perm nodes := by
  obtain ⟨nodup, subset, _⟩ := topologicalOrder_invariant distinct each
  exact (List.subperm_of_subset nodup subset).perm_of_length_le (by omega)

variable {keys : List κ}

omit [LinearOrder κ] in
theorem DependenciesFirst.acyclic [DecidableEq κ] (first : DependenciesFirst dependencies keys)
    (distinct : keys.Nodup) (member : key ∈ keys) :
    ¬Relation.TransGen (fun earlier later => earlier ∈ dependencies later) key key := by
  have lower : ∀ {left right}, Relation.TransGen (fun earlier later => earlier ∈ dependencies later)
        left right → right ∈ keys → left ∈ keys ∧ keys.idxOf left < keys.idxOf right := by
    intro left right path
    have single : ∀ {left right}, left ∈ dependencies right → right ∈ keys →
        left ∈ keys ∧ keys.idxOf left < keys.idxOf right := by
      intro left right edge inside
      obtain ⟨before, after, split⟩ := List.append_of_mem inside
      have earlier := first before right after split left edge
      have rightFresh : right ∉ before := by
        rw [split] at distinct
        exact fun again => (List.nodup_append.mp distinct).2.2 right again right (by simp) rfl
      refine ⟨split ▸ List.mem_append_left _ earlier, ?_⟩
      rw [split, List.idxOf_append_of_mem earlier, List.idxOf_append_of_notMem rightFresh]
      have := List.idxOf_lt_length_iff.mpr earlier
      omega
    induction path with
    | single edge => exact fun inside => single edge inside
    | tail _ edge ih =>
      intro inside
      obtain ⟨middleInside, last⟩ := single edge inside
      obtain ⟨leftInside, earlier⟩ := ih middleInside
      exact ⟨leftInside, earlier.trans last⟩
  intro cycle
  exact absurd (lower cycle member).2 (lt_irrefl _)

omit [LinearOrder κ] in
/-- Among finitely many nodes without a cycle, one with a property depends on none of them. -/
theorem exists_first_of_acyclic
    (closed : ∀ node ∈ nodes, ∀ dependency ∈ dependencies node, dependency ∈ nodes)
    (acyclic : ∀ node ∈ nodes, ¬Relation.TransGen
      (fun earlier later => earlier ∈ dependencies later) node node)
    {property : κ → Prop} (some_node : ∃ node ∈ nodes, property node) :
    ∃ node ∈ nodes, property node ∧ ∀ dependency ∈ dependencies node, ¬property dependency := by
  let below (left right : {node // node ∈ nodes}) : Prop :=
    Relation.TransGen (fun earlier later => earlier ∈ dependencies later) left.1 right.1
  have : Finite {node // node ∈ nodes} := (List.finite_toSet nodes).to_subtype
  have : IsTrans _ below := ⟨fun _ _ _ => .trans⟩
  have : Std.Irrefl below := ⟨fun node => acyclic node node.2⟩
  obtain ⟨node, member, holds⟩ := some_node
  obtain ⟨first, holds, least⟩ := (Finite.wellFounded_of_trans_of_irrefl below).has_min
    {found | property found} ⟨⟨node, member⟩, holds⟩
  refine ⟨first, first.2, holds, ?_⟩
  intro dependency depends again
  exact least ⟨dependency, closed first first.2 dependency depends⟩ again (.single depends)

section

variable (distinct : nodes.Nodup) (each : ∀ node ∈ nodes, (dependencies node).Nodup)
include distinct each

theorem topologicalOrder_complete_of_acyclic
    (closed : ∀ node ∈ nodes, ∀ dependency ∈ dependencies node, dependency ∈ nodes)
    (acyclic : ∀ node ∈ nodes, ¬Relation.TransGen
      (fun earlier later => earlier ∈ dependencies later) node node) :
    (topologicalOrder nodes dependencies).length = nodes.length := by
  have started : Kahn.Invariant nodes dependencies (Kahn.start nodes dependencies) :=
    .start distinct
  have invariant := started.drain distinct each nodes.length
  have stopped := Kahn.drain_ready distinct each nodes.length started (by simp [Kahn.start])
  have all : ∀ node ∈ nodes, node ∈ topologicalOrder nodes dependencies := by
    by_contra missing
    simp only [not_forall, exists_prop] at missing
    obtain ⟨node, member, fresh, settled⟩ := exists_first_of_acyclic closed acyclic missing
    have queued := invariant.ready_of_settled member fresh
      fun dependency depends => Classical.not_not.mp (settled dependency depends)
    rw [stopped] at queued
    cases queued
  refine le_antisymm ?_ ?_
  · exact (List.subperm_of_subset invariant.order_nodup invariant.order_subset).length_le
  · exact (List.subperm_of_subset distinct all).length_le

theorem topologicalOrder_complete (visits : keys.Perm nodes)
    (first : DependenciesFirst dependencies keys) :
    (topologicalOrder nodes dependencies).length = nodes.length := by
  apply topologicalOrder_complete_of_acyclic distinct each
  · intro node member dependency depends
    obtain ⟨before, after, split⟩ := List.append_of_mem (visits.mem_iff.mpr member)
    rw [← visits.mem_iff, split]
    exact List.mem_append_left _ (first before node after split dependency depends)
  · intro node member
    exact first.acyclic (visits.nodup_iff.mpr distinct) (visits.mem_iff.mpr member)

theorem topologicalOrder_least (visits : others.Perm nodes)
    (first : DependenciesFirst dependencies others) :
    topologicalOrder nodes dependencies ≤ others := by
  obtain ⟨tail, drained, least⟩ := Kahn.drain_least distinct each nodes.length
    (.start distinct) (List.pairwise_insertionSort _ _)
  rw [topologicalOrder, drained]
  exact least others visits first

end

end Soundness

section Settle

variable {κ : Type*} [DecidableEq κ] {β ε : Type*}

def settle (rule : κ → (κ → β) → Except ε β) : List κ → (κ → β) → Except ε (κ → β)
  | [], values => .ok values
  | key :: keys, values =>
    match rule key values with
    | .error error => .error error
    | .ok value => settle rule keys (update values key value)

/-- The rule reads the value at its own key and at the key's dependencies. -/
def LocalRule (dependencies : κ → List κ) (rule : κ → (κ → β) → Except ε β) : Prop :=
  ∀ key left right, left key = right key →
    (∀ dependency ∈ dependencies key, left dependency = right dependency) →
    rule key left = rule key right

variable {dependencies : κ → List κ} {rule : κ → (κ → β) → Except ε β}

variable {keys : List κ} {settled values : κ → β}

theorem settle_outside (done : settle rule keys values = .ok settled) (outside : key ∉ keys) :
    settled key = values key := by
  induction keys generalizing values with
  | nil =>
    cases done
    rfl
  | cons head tail ih =>
    simp only [List.mem_cons, not_or] at outside
    unfold settle at done
    split at done
    case h_1 => cases done
    case h_2 value _ => rw [ih done outside.2, update_of_ne outside.1]

theorem settle_rule (isLocal : LocalRule dependencies rule) (distinct : keys.Nodup)
    (ordered : ∀ before key after, keys = before ++ key :: after →
      ∀ dependency ∈ dependencies key, dependency ∉ key :: after)
    (done : settle rule keys values = .ok settled) : ∀ key ∈ keys,
      rule key (update settled key (values key)) = .ok (settled key) := by
  induction keys generalizing values with
  | nil => simp
  | cons head tail ih =>
    obtain ⟨headFresh, tailDistinct⟩ := List.nodup_cons.mp distinct
    unfold settle at done
    split at done
    case h_1 => cases done
    case h_2 value decided =>
      have headFinal : settled head = value := by
        rw [settle_outside done headFresh, update_self]
      intro key member
      rcases List.mem_cons.mp member with rfl | inTail
      · rw [headFinal, ← decided]
        apply isLocal
        · rw [update_self]
        · intro dependency inside
          have outside := ordered [] key tail rfl dependency inside
          simp only [List.mem_cons, not_or] at outside
          rw [update_of_ne outside.1, settle_outside done outside.2,
            update_of_ne outside.1]
      · have different : key ≠ head := fun same => headFresh (same ▸ inTail)
        have tailRule := ih tailDistinct (fun before found after split =>
          ordered (head :: before) found after (by simp [split])) done key inTail
        rwa [update_of_ne different] at tailRule

theorem settle_fixed (fixed : ∀ key ∈ keys, rule key values = .ok (values key)) :
    settle rule keys values = .ok values := by
  induction keys with
  | nil => rfl
  | cons head tail ih =>
    obtain ⟨own, others⟩ := List.forall_mem_cons.mp fixed
    rw [settle, own]
    dsimp only
    rw [update_eq_self]
    exact ih others

theorem settle_of_rule (isLocal : LocalRule dependencies rule) (distinct : keys.Nodup)
    (ordered : ∀ before key after, keys = before ++ key :: after →
      ∀ dependency ∈ dependencies key, dependency ∉ key :: after)
    (outside : ∀ key ∉ keys, settled key = values key) (solves : ∀ key ∈ keys,
      rule key (update settled key (values key)) = .ok (settled key)) :
    settle rule keys values = .ok settled := by
  induction keys generalizing values with
  | nil => exact congrArg Except.ok (funext fun key => (outside key List.not_mem_nil).symm)
  | cons head tail ih =>
    obtain ⟨headFresh, tailDistinct⟩ := List.nodup_cons.mp distinct
    have decided : rule head values = .ok (settled head) := by
      rw [← solves head List.mem_cons_self]
      apply isLocal
      · rw [update_self]
      · intro dependency inside
        have later := ordered [] head tail rfl dependency inside
        rw [update_of_ne (List.ne_of_not_mem_cons later), outside _ later]
    rw [settle, decided]
    apply ih tailDistinct
    · exact fun before key after split => ordered (head :: before) key after (by simp [split])
    · intro key fresh
      by_cases same : key = head
      · rw [same, update_self]
      · rw [update_of_ne same, outside key (by simp [same, fresh])]
    · intro key member
      have different : key ≠ head := fun same => headFresh (same ▸ member)
      rw [update_of_ne different]
      exact solves key (List.mem_cons_of_mem _ member)

/-- Any two orders that put dependencies first settle the same values. -/
theorem settle_perm (isLocal : LocalRule dependencies rule) (visits : keys.Perm others)
    (distinct : keys.Nodup) (ordered : ∀ before key after, keys = before ++ key :: after →
      ∀ dependency ∈ dependencies key, dependency ∉ key :: after)
    (otherOrdered : ∀ before key after, others = before ++ key :: after →
      ∀ dependency ∈ dependencies key, dependency ∉ key :: after)
    (done : settle rule keys values = .ok settled) : settle rule others values = .ok settled :=
  settle_of_rule isLocal (visits.nodup_iff.mp distinct) otherOrdered
    (fun _ fresh => settle_outside done (visits.mem_iff.not.mpr fresh))
    fun key member => settle_rule isLocal distinct ordered done key (visits.mem_iff.mpr member)

theorem settle_ok (rule : κ → (κ → β) → β) (keys : List κ) (values : κ → β) :
    settle (ε := ε) (fun key current => .ok (rule key current)) keys values = .ok (keys.foldl
        (fun current key => update current key (rule key current))
        values) := by
  induction keys generalizing values with
  | nil => rfl
  | cons head tail ih => exact ih _

omit [DecidableEq κ] in
theorem DependenciesFirst.not_later
    (first : DependenciesFirst dependencies keys) (distinct : keys.Nodup) :
    ∀ before key after, keys = before ++ key :: after →
      ∀ dependency ∈ dependencies key, dependency ∉ key :: after := by
  intro before key after split dependency inside later
  have earlier := first before key after split dependency inside
  rw [split] at distinct
  exact (List.nodup_append.mp distinct).2.2 dependency earlier dependency later rfl

end Settle

end Linktools.Library
