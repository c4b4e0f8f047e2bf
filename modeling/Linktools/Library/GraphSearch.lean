import Linktools.Library.Checked
import Linktools.Library.Keyed
import Linktools.Library.TopologicalOrder

namespace Linktools.Library

open List

/-! Depth-first emission: a key follows its dependencies; a key that is met again while it is
being visited is a cycle. -/

structure DepthFirst (κ : Type*) where
  visiting : List κ := []
  order : List κ := []

namespace DepthFirst

variable {κ : Type} {ε : Type} [DecidableEq κ]

/-- Keys on the way to one another are distinct, so the number of keys bounds the
nesting (`visit_error`). -/
def visit (allow : κ → Except ε Unit) (cyclic : κ → ε) (dependencies : κ → List κ) :
    Nat → DepthFirst κ → κ → Except ε (DepthFirst κ)
  | 0, _, key => .error (cyclic key)
  | depth + 1, state, key =>
    if key ∈ state.order then .ok state
    else if key ∈ state.visiting then .error (cyclic key)
    else do
      let state ← (dependencies key).foldlM
        (fun state dependency => do
          allow dependency
          visit allow cyclic dependencies depth state dependency)
        { state with visiting := key :: state.visiting }
      return ⟨state.visiting.erase key, state.order ++ [key]⟩

def visitAll (allow : κ → Except ε Unit) (cyclic : κ → ε) (dependencies : κ → List κ)
    (size : Nat) (roots : List κ) : Except ε (List κ) :=
  order <$> roots.foldlM (visit allow cyclic dependencies (size + 1)) {}

variable {allow : κ → Except ε Unit} {cyclic : κ → ε} {dependencies : κ → List κ}
  {state after : DepthFirst κ} {key : κ} {keys nodes : List κ} {depth : Nat} {error : ε}

/-- What a visit does to the state: it adds keys that were not on the way to it. -/
structure Grows (allow : κ → Except ε Unit) (dependencies : κ → List κ) (nodes : List κ)
    (state after : DepthFirst κ) : Prop where
  visiting : after.visiting = state.visiting
  kept : ∀ key ∈ state.order, key ∈ after.order
  fresh : ∀ key ∈ after.order, key ∈ state.order ∨ key ∉ state.visiting ∧ key ∈ nodes ∧
    ∀ dependency ∈ dependencies key, allow dependency = .ok ()
  nodup : state.order.Nodup → after.order.Nodup
  first : DependenciesFirst dependencies state.order → DependenciesFirst dependencies after.order

omit [DecidableEq κ] in
theorem Grows.refl : Grows allow dependencies nodes state state :=
  ⟨rfl, fun _ => id, fun _ => .inl, id, id⟩

omit [DecidableEq κ] in
theorem Grows.trans (left : Grows allow dependencies nodes state middle)
    (right : Grows allow dependencies nodes middle after) : Grows allow dependencies nodes state
    after where
  visiting := right.visiting.trans left.visiting
  kept key inside := right.kept key (left.kept key inside)
  fresh key inside := by
    rcases right.fresh key inside with earlier | ⟨apart, visited⟩
    · exact left.fresh key earlier
    · exact .inr ⟨left.visiting ▸ apart, visited⟩
  nodup distinct := right.nodup (left.nodup distinct)
  first ordered := right.first (left.first ordered)

variable {step : DepthFirst κ → κ → Except ε (DepthFirst κ)}

omit [DecidableEq κ] in
theorem grows_foldlM (each : ∀ key ∈ keys, ∀ state after, step state key = .ok after →
      Grows allow dependencies nodes state after ∧ key ∈ after.order)
    (done : keys.foldlM step state = .ok after) :
    Grows allow dependencies nodes state after ∧ ∀ key ∈ keys, key ∈ after.order ∧
      ∃ before next, step before key = .ok next := by
  induction keys generalizing state with
  | nil =>
    cases done
    exact ⟨.refl, by simp⟩
  | cons head tail ih =>
    rw [foldlM_cons, bind_eq_ok] at done
    obtain ⟨middle, visited, done⟩ := done
    obtain ⟨first, each⟩ := forall_mem_cons.mp each
    obtain ⟨grows, inside⟩ := first state middle visited
    obtain ⟨rest, others⟩ := ih each done
    exact ⟨grows.trans rest, forall_mem_cons.mpr
      ⟨⟨rest.kept head inside, state, middle, visited⟩, others⟩⟩

/-- Why a visit raises: a key that it reaches has a dependency that is not admitted, or
depends on itself. -/
def Fails (allow : κ → Except ε Unit) (cyclic : κ → ε) (dependencies : κ → List κ)
    (error : ε) (key : κ) : Prop :=
  ∃ found, Relation.ReflTransGen (fun earlier later => earlier ∈ dependencies later) found key ∧
    ((∃ dependency ∈ dependencies found, allow dependency = .error error) ∨
      Relation.TransGen (fun earlier later => earlier ∈ dependencies later) found found ∧
        error = cyclic found)

omit [DecidableEq κ] in
theorem foldlM_error (failed : keys.foldlM step state = .error error) :
    ∃ before key rest middle, keys = before ++ key :: rest ∧
      before.foldlM step state = .ok middle ∧ step middle key = .error error := by
  induction keys generalizing state with
  | nil => cases failed
  | cons head tail ih =>
    rw [foldlM_cons, bind_eq_error] at failed
    rcases failed with failed | ⟨middle, stepped, failed⟩
    · exact ⟨[], head, tail, state, rfl, rfl, failed⟩
    · obtain ⟨before, key, rest, last, rfl, done, failed⟩ := ih failed
      refine ⟨head :: before, key, rest, last, rfl, ?_, failed⟩
      rw [foldlM_cons, stepped]
      exact done

section Closed

variable (closed : ∀ key ∈ nodes, ∀ dependency ∈ dependencies key,
  allow dependency = .ok () → dependency ∈ nodes)

include closed

theorem visit_ok (member : key ∈ nodes)
    (done : visit allow cyclic dependencies depth state key = .ok after) :
    Grows allow dependencies nodes state after ∧ key ∈ after.order := by
  induction depth generalizing state key after with
  | zero => cases done
  | succ depth ih =>
    rw [visit] at done
    split at done
    case isTrue inside =>
      cases done
      exact ⟨.refl, inside⟩
    case isFalse outside =>
      split at done
      case isTrue => cases done
      case isFalse apart =>
        simp only [bind_eq_ok, pure_eq_ok] at done
        obtain ⟨middle, visited, rfl⟩ := done
        obtain ⟨grows, settled⟩ := grows_foldlM
          (fun dependency depends state after done => by
            obtain ⟨_, admitted, visited⟩ := bind_eq_ok.mp done
            exact ih (closed key member dependency depends admitted) visited) visited
        have fresh : key ∉ middle.order := by
          intro inside
          rcases grows.fresh key inside with earlier | ⟨outside, _⟩
          · exact outside earlier
          · exact outside mem_cons_self
        refine ⟨⟨?_, ?_, ?_, ?_, ?_⟩, by simp⟩
        · rw [grows.visiting]
          exact erase_cons_head key state.visiting
        · exact fun found inside => mem_append_left _ (grows.kept found inside)
        · intro found inside
          rcases mem_append.mp inside with inside | last
          · exact (grows.fresh found inside).imp_right fun ⟨outside, admitted⟩ =>
              ⟨fun way => outside (mem_cons_of_mem _ way), admitted⟩
          · rw [mem_singleton.mp last]
            refine .inr ⟨apart, member, fun dependency depends => ?_⟩
            obtain ⟨_, _, done⟩ := (settled dependency depends).2
            exact (bind_eq_ok.mp done).choose_spec.1
        · intro distinct
          rw [nodup_append]
          refine ⟨grows.nodup distinct, nodup_singleton key, ?_⟩
          intro found inside last same
          rw [mem_singleton.mp same]
          exact fun again => fresh (again ▸ inside)
        · exact fun ordered => (grows.first ordered).concat fun dependency depends =>
            (settled dependency depends).1

theorem visit_error (member : key ∈ nodes) (distinct : state.visiting.Nodup)
    (way : ∀ found ∈ state.visiting, found ∈ nodes ∧
      Relation.TransGen (fun earlier later => earlier ∈ dependencies later) key found)
    (enough : nodes.length < depth + state.visiting.length)
    (failed : visit allow cyclic dependencies depth state key = .error error) :
    Fails allow cyclic dependencies error key := by
  induction depth generalizing state key with
  | zero =>
    have short := (subperm_of_subset distinct fun found inside =>
      (way found inside).1).length_le
    omega
  | succ depth ih =>
    rw [visit] at failed
    split at failed
    case isTrue => cases failed
    case isFalse =>
      split at failed
      case isTrue inside =>
        cases failed
        exact ⟨key, .refl, .inr ⟨(way key inside).2, rfl⟩⟩
      case isFalse apart =>
        simp only [bind_eq_error, pure, Except.pure, reduceCtorEq, and_false, exists_false,
          or_false] at failed
        obtain ⟨before, dependency, rest, middle, split, visited, failed⟩ := foldlM_error failed
        have depends : dependency ∈ dependencies key := by simp [split]
        rcases bind_eq_error.mp failed with refused | ⟨_, admitted, failed⟩
        · exact ⟨key, .refl, .inl ⟨dependency, depends, refused⟩⟩
        · have grows := (grows_foldlM
            (fun other among state after done => by
              obtain ⟨_, admitted, visited⟩ := bind_eq_ok.mp done
              have inside : other ∈ dependencies key := by simp [split, among]
              exact visit_ok closed (closed key member other inside admitted) visited) visited).1
          obtain ⟨found, reached, reason⟩ := ih
            (closed key member dependency depends admitted)
            (grows.visiting ▸ nodup_cons.mpr ⟨apart, distinct⟩)
            (by
              rw [grows.visiting, forall_mem_cons]
              exact ⟨⟨member, .single depends⟩, fun found inside =>
                ⟨(way found inside).1, .head depends (way found inside).2⟩⟩)
            (by rw [grows.visiting, length_cons]; omega) failed
          exact ⟨found, reached.tail depends, reason⟩

variable {order roots : List κ} {size : Nat}

section

variable (members : ∀ root ∈ roots, root ∈ nodes)
include members

theorem visitAll_ok (done : visitAll allow cyclic dependencies size roots = .ok order) :
    order.Nodup ∧ DependenciesFirst dependencies order ∧ (∀ root ∈ roots, root ∈ order) ∧
      ∀ key ∈ order, key ∈ nodes ∧ ∀ dependency ∈ dependencies key, allow dependency = .ok () := by
  obtain ⟨after, visited, rfl⟩ := map_eq_ok.mp done
  obtain ⟨grows, inside⟩ := grows_foldlM
    (fun root member _ _ => visit_ok closed (members root member)) visited
  refine ⟨grows.nodup .nil, grows.first ?_, fun root member => (inside root member).1, ?_⟩
  · intro before key after split
    simp at split
  · exact fun key inside => ((grows.fresh key inside).resolve_left not_mem_nil).2

theorem visitAll_error
    (failed : visitAll allow cyclic dependencies nodes.length roots = .error error) :
    ∃ root ∈ roots, Fails allow cyclic dependencies error root := by
  have stopped : roots.foldlM (visit allow cyclic dependencies (nodes.length + 1)) {} =
      .error error := by
    rw [visitAll, map_eq_pure_bind, bind_eq_error] at failed
    exact failed.resolve_right (by rintro ⟨_, _, ⟨⟩⟩)
  obtain ⟨before, root, rest, middle, split, visited, failed⟩ := foldlM_error stopped
  have grows := (grows_foldlM (fun found among _ _ =>
    visit_ok closed (members found (by simp [split, among]))) visited).1
  have member : root ∈ roots := by simp [split]
  refine ⟨root, member, visit_error closed (members root member) ?_ ?_ ?_ failed⟩
  · exact grows.visiting ▸ .nil
  · simp [grows.visiting]
  · omega

/-- A search that succeeds also succeeds from fewer roots. -/
theorem visitAll_subset (fewer : ∀ root ∈ others, root ∈ roots)
    (done : visitAll allow cyclic dependencies size roots = .ok order) :
    ∃ result, visitAll allow cyclic dependencies nodes.length others = .ok result := by
  obtain ⟨distinct, first, inside, known⟩ := visitAll_ok closed members done
  cases outcome : visitAll allow cyclic dependencies nodes.length others with
  | ok result => exact ⟨result, rfl⟩
  | error error =>
    obtain ⟨root, member, found, reached, reason⟩ :=
      visitAll_error closed (fun root member => members root (fewer root member)) outcome
    have visited : found ∈ order := by
      clear reason
      induction reached using Relation.ReflTransGen.head_induction_on with
      | refl => exact inside root (fewer root member)
      | head depends _ ih =>
        obtain ⟨before, after, split⟩ := append_of_mem ih
        exact split ▸ mem_append_left _ (first before _ after split _ depends)
    rcases reason with ⟨dependency, depends, refused⟩ | ⟨cycle, _⟩
    · cases ((known found visited).2 dependency depends).symm.trans refused
    · exact absurd cycle (first.acyclic distinct visited)

end

end Closed

theorem visit_settled (fresh : key ∉ state.order) (apart : key ∉ state.visiting)
    (settled : ∀ dependency ∈ dependencies key,
      dependency ∈ state.order ∧ allow dependency = .ok ()) :
    visit allow cyclic dependencies (depth + 2) state key =
      .ok ⟨state.visiting, state.order ++ [key]⟩ := by
  have same (keys : List κ) (among : ∀ found ∈ keys, found ∈ dependencies key) :
      keys.foldlM (fun state dependency => do
          allow dependency
          visit allow cyclic dependencies (depth + 1) state dependency)
        { state with visiting := key :: state.visiting } =
          .ok { state with visiting := key :: state.visiting } := by
    induction keys with
    | nil => rfl
    | cons head tail ih =>
      obtain ⟨depends, among⟩ := forall_mem_cons.mp among
      rw [foldlM_cons, (settled head depends).2, ok_bind, visit,
        if_pos (settled head depends).1]
      exact ih among
  rw [visit, if_neg fresh, if_neg apart, same _ fun _ => id, ok_bind, erase_cons_head]
  rfl

theorem visitAll_of_first (distinct : roots.Nodup) (large : roots.length ≤ size)
    (first : DependenciesFirst dependencies roots)
    (admitted : ∀ key ∈ roots, ∀ dependency ∈ dependencies key, allow dependency = .ok ()) :
    visitAll allow cyclic dependencies size roots = .ok roots := by
  have rounds (before rest : List κ) (split : roots = before ++ rest) :
      rest.foldlM (visit allow cyclic dependencies (size + 1)) ⟨[], before⟩ = .ok ⟨[], roots⟩ := by
    induction rest generalizing before with
    | nil => rw [split, append_nil]; rfl
    | cons root rest ih =>
      have fresh : root ∉ before := fun again =>
        (nodup_append.mp (split ▸ distinct)).2.2 root again root mem_cons_self rfl
      have settled : visit allow cyclic dependencies (size - 1 + 2) ⟨[], before⟩ root =
          .ok ⟨[], before ++ [root]⟩ :=
        visit_settled fresh not_mem_nil fun dependency depends =>
          ⟨first before root rest split dependency depends,
            admitted root (by simp [split]) dependency depends⟩
      have filled : size - 1 + 2 = size + 1 := by
        rw [split, length_append, length_cons] at large
        omega
      rw [foldlM_cons, ← filled, settled, ok_bind, filled]
      exact ih (before ++ [root]) (by simp [split])
  rw [visitAll, rounds [] roots rfl]
  rfl

end DepthFirst

section BreadthFirst

variable {κ : Type} [DecidableEq κ] (dependencies : κ → List κ) (wanted : κ)

/-- Whether the search from some keys meets the wanted one; every round visits a key that
was not visited before, so the keys bound the rounds (`breadthFirst_iff`). -/
def breadthFirst : Nat → List κ → List κ → Bool
  | 0, _, _ => false
  | rounds + 1, next, visited =>
    if next = [] then false
    else if wanted ∈ next then true
    else breadthFirst rounds
      ((next.flatMap dependencies).filter (· ∉ visited ++ next)) (visited ++ next)

variable {dependencies wanted} {next visited nodes : List κ} {rounds : Nat}

theorem breadthFirst_sound (met : breadthFirst dependencies wanted rounds next visited = true) :
    ∃ start ∈ next, Relation.ReflTransGen (fun earlier later => earlier ∈ dependencies later)
      wanted start := by
  induction rounds generalizing next visited with
  | zero => cases met
  | succ rounds ih =>
    rw [breadthFirst] at met
    split_ifs at met with _ here
    · exact ⟨wanted, here, .refl⟩
    · obtain ⟨found, member, reached⟩ := ih met
      obtain ⟨start, begins, depends⟩ := mem_flatMap.mp (mem_filter.mp member).1
      exact ⟨start, begins, reached.tail depends⟩

section

variable (known : ∀ key, ∀ dependency ∈ dependencies key, dependency ∈ nodes)
include known

/-- What has been visited is closed but for the keys that are visited next. -/
theorem breadthFirst_complete (enough : nodes.countP (· ∉ visited) < rounds)
    (fresh : ∀ key ∈ next, key ∈ nodes ∧ key ∉ visited) (absent : wanted ∉ visited)
    (closed : ∀ key ∈ visited, ∀ dependency ∈ dependencies key, dependency ∈ visited ++ next)
    (missed : breadthFirst dependencies wanted rounds next visited = false) :
    ∀ start ∈ visited ++ next,
      ¬Relation.ReflTransGen (fun earlier later => earlier ∈ dependencies later) wanted start := by
  induction rounds generalizing next visited with
  | zero => omega
  | succ rounds ih =>
    rw [breadthFirst] at missed
    split_ifs at missed with empty elsewhere
    · rw [empty, append_nil] at closed ⊢
      intro start inside reached
      apply absent
      clear ih missed absent
      induction reached using Relation.ReflTransGen.head_induction_on with
      | refl => exact inside
      | head depends _ ih => exact closed _ ih _ depends
    · intro start inside
      refine ih ?_ ?_ ?_ ?_ missed start (mem_append_left _ inside)
      · obtain ⟨head, member⟩ := exists_mem_of_ne_nil next empty
        have fewer : nodes.countP (· ∉ visited ++ next) < nodes.countP (· ∉ visited) :=
          countP_lt_of_mem (fresh head member).1 (by simp_all) (by simp [(fresh head member).2])
            (by simp [member])
        omega
      · intro key member
        obtain ⟨depends, outside⟩ := mem_filter.mp member
        obtain ⟨start, _, depends⟩ := mem_flatMap.mp depends
        exact ⟨known start key depends, of_decide_eq_true outside⟩
      · simp [absent, elsewhere]
      · intro key among dependency depends
        by_cases visits : dependency ∈ visited ++ next
        · exact mem_append_left _ visits
        · rcases mem_append.mp among with earlier | now
          · exact absurd (closed key earlier dependency depends) visits
          · exact mem_append_right _ (mem_filter.mpr
              ⟨mem_flatMap.mpr ⟨key, now, depends⟩, decide_eq_true visits⟩)

theorem breadthFirst_iff :
    breadthFirst dependencies wanted (nodes.length + 1) (dependencies start) [] = true ↔
      Relation.TransGen (fun earlier later => earlier ∈ dependencies later) wanted start := by
  rw [Relation.TransGen.tail'_iff]
  constructor
  · intro met
    obtain ⟨found, depends, reached⟩ := breadthFirst_sound met
    exact ⟨found, reached, depends⟩
  · rintro ⟨found, reached, depends⟩
    by_contra missed
    refine breadthFirst_complete known ?_ ?_ not_mem_nil (by simp)
      (eq_false_of_ne_true missed) found depends reached
    · exact Nat.lt_succ_of_le countP_le_length
    · exact fun key depends => ⟨known start key depends, not_mem_nil⟩

end

end BreadthFirst

end Linktools.Library
