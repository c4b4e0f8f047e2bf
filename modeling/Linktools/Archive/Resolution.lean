import Linktools.Archive.RangeReads

namespace Linktools.Archive

open Linktools.Core Library Library.SkewForest
open List hiding span

variable {Digest Raw Payload : Type} [DecidableEq Digest] {known : Known Digest}
  {forests : List (List (SkewTree (Item Digest)))} {job : RangeNode Digest}
  {hashing : Hashing Digest Raw Payload} {prepared bound : PreparedArchive Digest Payload}
  {includeContent : Bool} {state next : Resolution Digest Payload}

def unknownJob (prepared : PreparedArchive Digest Payload) (state : Resolution Digest Payload)
    (job : RangeNode Digest) : Bool :=
  (knownNode prepared state job.identity).isNone

def effort (forests : List (List (SkewTree (Item Digest))))
    (prepared : PreparedArchive Digest Payload) (state : Resolution Digest Payload) : Nat :=
  8 * ((state.queue ++ state.pending).map (load forests)).sum +
    2 * state.queue.countP (unknownJob prepared state) + state.pending.length +
      state.bodyPending.length

section effort

variable {rest opened : List (RangeNode Digest)}

theorem effort_park (forests : List (List (SkewTree (Item Digest))))
    (queued : state.queue = job :: rest)
    (unknown : knownNode prepared state job.identity = none) : effort forests prepared
        { state with queue := rest, pending := state.pending ++ [job] } <
      effort forests prepared state := by
  have waits : unknownJob prepared state job = true := by rw [unknownJob, unknown]; rfl
  have same : unknownJob prepared
      { state with queue := rest, pending := state.pending ++ [job] } =
        unknownJob prepared state := rfl
  rw [effort, effort, queued, same, countP_cons_of_pos waits]
  simp only [map_append, map_cons, map_nil, sum_append, sum_cons,
    sum_nil, length_append, length_singleton, cons_append]
  omega

theorem effort_visited (queued : state.queue = job :: rest)
    (found : knownNode prepared state job.identity = some node)
    (opens : Opens known spans forests job opened)
    (visited : Visited spans includeContent job node opened { state with queue := rest } next) :
    effort forests prepared next < effort forests prepared state := by
  have same : unknownJob prepared next = unknownJob prepared state := by
    funext other
    rw [unknownJob, unknownJob]
    by_cases here : other.identity = job.identity
    case pos => rw [here, found, knownNode, visited.nodes, AList.lookup_insert, Option.some_or]
    case neg => rw [knownNode, knownNode, visited.nodes, AList.lookup_insert_ne here]
  have bodies : next.bodyPending.length ≤ state.bodyPending.length + 1 := by
    rw [visited.bodyPending]
    split
    case isTrue =>
      by_cases member : job.identity ∈ state.bodyPending
      case pos =>
        rw [insert_of_mem member]
        exact Nat.le_succ _
      case neg => rw [insert_of_not_mem member, length_cons]
    case isFalse => exact Nat.le_succ _
  have lighter := opens.lighter
  have few := opens.few
  have unknownOpened : opened.countP (unknownJob prepared state) ≤ opened.length :=
    countP_le_length
  have unknownRest : rest.countP (unknownJob prepared state) ≤
      (job :: rest).countP (unknownJob prepared state) := by
    rw [countP_cons]
    exact Nat.le_add_right _ _
  rw [effort, effort, same, queued, visited.queue, visited.pending]
  simp only [map_append, map_cons, sum_append, sum_cons, cons_append,
    countP_append]
  omega

theorem effort_fetched (forests : List (List (SkewTree (Item Digest))))
    (prepared : PreparedArchive Digest Payload) (drained : state.queue = [])
    (waiting : ¬(state.pending = [] ∧ state.bodyPending = [])) (queue : next.queue = state.pending)
    (pending : next.pending = []) (bodies : next.bodyPending = [])
    (arrived : ∀ job ∈ state.pending, (next.nodes.lookup job.identity).isSome = true) :
    effort forests prepared next < effort forests prepared state := by
  have noneUnknown : state.pending.countP (unknownJob prepared next) = 0 := by
    rw [countP_eq_zero]
    intro job member
    obtain ⟨node, found⟩ := Option.isSome_iff_exists.mp (arrived job member)
    rw [unknownJob, knownNode, found]
    exact Bool.false_ne_true
  have some_waiting : 0 < state.pending.length + state.bodyPending.length := by
    by_contra none
    apply waiting
    constructor
    · exact eq_nil_of_length_eq_zero (by omega)
    · exact eq_nil_of_length_eq_zero (by omega)
  rw [effort, effort, queue, pending, bodies, noneUnknown, drained, append_nil,
    nil_append, countP_nil, length_nil, length_nil]
  omega

end effort

structure Finished (state : Resolution Digest Payload) : Prop where
  queue : state.queue = []
  pending : state.pending = []
  bodyPending : state.bodyPending = []

/-- The loop ends; without a store it may end undecided. -/
theorem resolveLoop_spec (grounded : Grounded known spans forests)
    (sources : Sources hashing known prepared rows)
    (readable : includeContent = true → Readable known prepared rows)
    (offered : store = none ∨ store = some rows)
    (progress : Progress hashing known spans forests includeContent prepared state)
    (enough : effort forests prepared state < fuel) : (store = none ∧
      resolveLoop spans includeContent hashing prepared store fuel state = some (.ok none)) ∨
    ∃ final, resolveLoop spans includeContent hashing prepared store fuel state =
        some (.ok (some final)) ∧
      Progress hashing known spans forests includeContent prepared final ∧ Finished final := by
  induction fuel generalizing state with
  | zero => exact absurd enough (Nat.not_lt_zero _)
  | succ fuel ih =>
    rw [resolveLoop.eq_def]
    dsimp only
    cases queued : state.queue with
    | cons job rest =>
      obtain ⟨tree, at_⟩ := progress.valid job (by rw [queued]; exact mem_cons_self)
      dsimp only
      rw [if_neg (progress.not_processed queued at_)]
      cases node_eq : knownNode prepared state job.identity with
      | none =>
        have fewer := effort_park forests queued node_eq
        exact ih (progress.park queued node_eq) (by omega)
      | some node =>
        have found : known job.identity = some node := by
          rw [knownNode, Option.or_eq_some_iff] at node_eq
          cases node_eq with
          | inl visitedBefore => exact progress.nodes _ _ visitedBefore
          | inr remembered => exact sources.remembered _ _ remembered.2
        obtain ⟨next, opened, next_eq, opens, visited⟩ :=
          visit_spec includeContent { state with queue := rest } grounded at_ found
            (progress.fresh queued at_)
        have fewer := effort_visited queued node_eq opens visited
        dsimp only
        rw [next_eq]
        exact ih (progress.visited queued at_ found opens visited) (by omega)
    | nil =>
      dsimp only
      by_cases done : state.pending = [] ∧ state.bodyPending = []
      case pos =>
        rw [if_pos done]
        exact .inr ⟨state, rfl, progress, queued, done.1, done.2⟩
      case neg =>
        rw [if_neg done]
        cases offered with
        | inl none =>
          subst none
          exact .inl ⟨rfl, rfl⟩
        | inr some =>
          subst some
          obtain ⟨next, next_eq, nextProgress, queue, pending, bodies, arrived⟩ :=
            fetch_spec sources readable progress queued
          have fewer := effort_fetched forests prepared queued done queue pending bodies arrived
          dsimp only
          rw [next_eq]
          exact ih nextProgress (by omega)

omit [DecidableEq Digest] in
theorem startQueue_spans : (startQueue spans).map RangeNode.span = List.range spans.length := by
  rw [startQueue, map_map]
  change spans.zipIdx.map Prod.snd = _
  rw [zipIdx_map_snd, range_eq_range']

omit [DecidableEq Digest] in
theorem startQueue_valid (grounded : Grounded known spans forests)
    (member : job ∈ startQueue spans) : ValidJob known spans forests job ∧ job.offset = 0 ∧
      reach forests job = SkewForest.size (forestOf forests job.span) := by
  obtain ⟨entry, inside, rfl⟩ := mem_map.mp member
  have slice_eq := mem_zipIdx_iff_getElem?.mp inside
  have stores := grounded.stores slice_eq
  refine ⟨?_, rfl, rfl⟩
  have counted := stores.counted
  have positive := entry.1.ordered
  cases forest_eq : forestOf forests entry.2 with
  | nil =>
    rw [forest_eq] at counted
    change 0 = entry.1.count at counted
    omega
  | cons tree rest =>
    have located := stores.located
    rw [forest_eq] at located
    obtain ⟨first, treeAt, _⟩ := located
    refine ⟨tree, ⟨[], items rest, ?_, rfl⟩, treeAt,
      stores.skew.perfect tree (by rw [forest_eq]; exact mem_cons_self), ?_, ?_,
      fun _ => rfl, ?_⟩
    · change items (forestOf forests entry.2) = _
      rw [forest_eq, items_cons, nil_append]
    · exact (Option.some.inj first).symm
    · change tree.size = (weightsOf spans entry.2).headD 0
      rw [weightsOf_eq slice_eq, ← stores.counted, forestWeights_eq stores.skew, forest_eq]
      rfl
    · intro position same
      cases same
      exact ⟨[], rest, forest_eq, rfl, rfl⟩

theorem Progress.start (grounded : Grounded known spans forests) :
    Progress hashing known spans forests includeContent prepared { queue := startQueue spans } := by
  constructor
  case nodes => rintro _ _ ⟨⟩
  case valid =>
    intro job member
    rw [append_nil] at member
    exact (startQueue_valid grounded member).1
  case parked => simp
  case once =>
    intro place
    have apart : ((startQueue spans).map RangeNode.span).Nodup := by
      rw [startQueue_spans]
      exact nodup_range
    have counted := nodup_iff_count_le_one.mp apart place.1
    rw [count, countP_map] at counted
    rw [countP_nil, append_nil, zero_add]
    refine le_trans (countP_mono_left ?_) counted
    intro job _ covered
    rw [covers, decide_eq_true_eq] at covered
    exact beq_iff_eq.mpr covered.1
  case covered =>
    intro place wanted
    rw [countP_nil, append_nil, zero_add]
    apply countP_pos_iff.mpr
    obtain ⟨low, high⟩ := wanted
    have inside : place.1 < spans.length := by
      by_contra outside
      rw [rangeOf, getD_eq_getElem?_getD, getElem?_eq_none
        (by simpa using outside)] at high
      exact absurd high (Nat.not_lt_zero _)
    have slice_eq := getElem?_eq_getElem inside
    rw [rangeOf_eq slice_eq] at high
    refine ⟨_, mem_map.mpr ⟨(spans[place.1], place.1),
      mem_zipIdx_iff_getElem?.mpr slice_eq, rfl⟩, ?_⟩
    rw [covers, decide_eq_true_eq]
    refine ⟨rfl, Nat.zero_le _, ?_⟩
    change place.2 < SkewForest.size (forestOf forests place.1)
    rw [(grounded.stores slice_eq).counted]
    dsimp only at high
    omega
  case sound => simp
  case complete => simp
  case identified => simp
  case bodies => simp
  case noBodies => exact fun _ => rfl
  case held => simp

theorem Progress.lookup_matched
    (progress : Progress hashing known spans forests includeContent prepared state)
    (finished : Finished state) (slice_eq : spans[span]? = some slice)
    (inside : position < slice.stop - slice.start) :
    state.matched.lookup (span, position) =
      ((items (forestOf forests span)).map Prod.snd)[slice.count - slice.stop + position]? := by
  have range := rangeOf_eq slice_eq
  have within := slice.ordered
  have wanted : Wanted spans (span, slice.count - slice.stop + position) := by
    rw [Wanted, range]
    dsimp only
    omega
  have covered := progress.covered _ wanted
  rw [finished.queue, finished.pending, append_nil, countP_nil, add_zero] at covered
  obtain ⟨job, member, sits⟩ := countP_pos_iff.mp covered
  rw [sitsAt, decide_eq_true_eq] at sits
  obtain ⟨same, offset⟩ := sits
  dsimp only at same offset
  have present := progress.complete job member (by rw [same, offset]; exact wanted)
  rw [same, offset, range] at present
  dsimp only at present
  rw [Nat.add_sub_cancel_left] at present
  obtain ⟨content, content_eq⟩ := Option.isSome_iff_exists.mp present
  have item := (progress.sound _ _ _ content_eq).1
  rw [range] at item
  rw [content_eq, getElem?_map, ← item]

theorem groupOf_eq_ok (grounded : Grounded known spans forests)
    (progress : Progress hashing known spans forests includeContent prepared state)
    (finished : Finished state) (slice_eq : spans[span]? = some slice) :
    groupOf state.matched span slice =
      .ok (((contentsOf (forestOf forests span)).take slice.stop).drop slice.start) := by
  have within := slice.ordered
  have counted := (grounded.stores slice_eq).counted
  have length : ((items (forestOf forests span)).map Prod.snd).length = slice.count := by
    rw [length_map, ← size_eq_length, counted]
  have matched : (List.range (slice.stop - slice.start)).mapM
      (fun position => orRaise (state.matched.lookup (span, position)) Raised.integrity) =
        .ok ((((items (forestOf forests span)).map Prod.snd).drop
          (slice.count - slice.stop)).take (slice.stop - slice.start)) := by
    rw [mapM_eq_ok, forall₂_iff_get]
    refine ⟨?_, ?_⟩
    · rw [length_range, length_take, length_drop, length]
      omega
    · intro position inside insideTaken
      rw [length_range] at inside
      rw [orRaise_eq_ok, get_eq_getElem, get_eq_getElem, getElem_range,
        progress.lookup_matched finished slice_eq inside, getElem_take,
        getElem_drop, getElem?_eq_getElem]
  rw [groupOf, matched, ok_bind]
  change Except.ok _ = _
  rw [contentsOf, take_reverse, drop_reverse, length_drop, length]
  have stop : slice.count - (slice.count - slice.stop) = slice.stop := by omega
  rw [stop]

omit [DecidableEq Digest] in
theorem exists_forests (holds : List.Forall₂ (SliceHolds known) spans parts) :
    ∃ forests, Grounded known spans forests ∧
      List.Forall₂ (fun entry part => spans[entry.2]? = some entry.1 ∧ part =
        ((contentsOf (forestOf forests entry.2)).take entry.1.stop).drop entry.1.start)
        spans.zipIdx parts := by
  obtain ⟨forests, paired, length⟩ : ∃ forests : List (List (SkewTree (Item Digest))), List.Forall₂
      (fun slice (entry : List (SkewTree (Item Digest)) × List Digest) =>
        Stores known slice entry.1 ∧
          entry.2 = ((contentsOf entry.1).take slice.stop).drop slice.start)
      spans (forests.zip parts) ∧ forests.length = parts.length := by
    induction holds with
    | nil => exact ⟨[], .nil, rfl⟩
    | cons here _ ih =>
      obtain ⟨forest, stores, part⟩ := here
      obtain ⟨forests, paired, length⟩ := ih
      exact ⟨forest :: forests, .cons ⟨stores, part⟩ paired, by simp [length]⟩
  have indexed := forall₂_iff_get.mp paired
  have lengths : spans.length = parts.length := by
    rw [indexed.1, length_zip, length, Nat.min_self]
  refine ⟨forests, ?_, ?_⟩
  · refine forall₂_iff_get.mpr ⟨by rw [lengths, length], ?_⟩
    intro index inside insideForests
    have here := (indexed.2 index inside (by rw [← indexed.1]; exact inside)).1
    rw [get_eq_getElem, get_eq_getElem, getElem_zip] at here
    exact here
  · refine forall₂_iff_get.mpr ⟨by rw [length_zipIdx, lengths], ?_⟩
    intro index inside insideParts
    rw [length_zipIdx] at inside
    have insideForests : index < forests.length := by omega
    have here := (indexed.2 index inside (by rw [← indexed.1]; exact inside)).2
    rw [get_eq_getElem, get_eq_getElem, getElem_zip] at here
    rw [get_eq_getElem, get_eq_getElem, getElem_zipIdx, forestOf,
      getD_eq_getElem?_getD, zero_add, getElem?_eq_getElem insideForests]
    exact ⟨getElem?_eq_getElem inside, here⟩

variable {contents : List (List Digest)}

omit [DecidableEq Digest] in
theorem exists_parts (holds : List.Forall₂ (Holds known) roots contents) :
    ∃ parts, List.Forall₂ (SliceHolds known) (roots.flatMap ArchiveRoot.slices) parts ∧
      regroup roots parts = contents := by
  induction holds with
  | nil => exact ⟨[], .nil, rfl⟩
  | cons here _ ih =>
    obtain ⟨own, ownHolds, content⟩ := here
    obtain ⟨rest, restHolds, grouped⟩ := ih
    refine ⟨own ++ rest, ?_, ?_⟩
    · rw [flatMap_cons]
      exact rel_append ownHolds restHolds
    · rw [regroup, ownHolds.length_eq, take_left, drop_left, grouped, content]

variable {content : Digest}

omit [DecidableEq Digest] in
theorem mem_of_mem_regroup (member : content ∈ (regroup roots groups).flatten) :
    content ∈ groups.flatten := by
  induction roots generalizing groups with
  | nil => cases member
  | cons root rest ih =>
    rw [regroup, flatten_cons, mem_append] at member
    rw [← take_append_drop root.slices.length groups, flatten_append, mem_append]
    exact member.imp id ih

omit [DecidableEq Digest] in
theorem exists_matched (grouped : groupOf matched span slice = .ok part) (member : content ∈ part) :
    ∃ position, matched.lookup (span, position) = some content := by
  obtain ⟨group, group_eq, reversed⟩ := bind_eq_ok.mp grouped
  cases reversed
  obtain ⟨position, _, found⟩ := exists_related (List.Forall₂.flip (mapM_eq_ok.mp group_eq))
    (mem_reverse.mp member)
  exact ⟨position, orRaise_eq_ok.mp found⟩

structure Refreshed (known : Known Digest) (before after : PreparedArchive Digest Payload) :
    Prop where
  rest : after = { before with nodes := after.nodes }
  nodes : Within (fun identity => after.nodes.lookup identity) known
  kept : Within (fun identity => before.nodes.lookup identity)
    fun identity => after.nodes.lookup identity

structure Resolves (hashing : Hashing Digest Raw Payload) (known : Known Digest)
    (includeContent : Bool) (contents : List (List Digest))
    (bound : PreparedArchive Digest Payload) (ranges : ResolvedRanges Digest Payload) : Prop where
  groups : ranges.groups = contents
  refreshed : Refreshed known bound ranges.prepared
  records : includeContent = true → ∀ content ∈ contents.flatten, ∃ record,
    ranges.records.lookup content = some record ∧ hashing.contentIdentity record = content

theorem resolveRanges_spec {archive : ContentArchive} (binds : archive.bind prepared = .ok bound)
    (owned : ∀ root ∈ roots, archive.Owns hashing root)
    (holds : List.Forall₂ (Holds known) roots contents) (sources : Sources hashing known bound rows)
    (readable : includeContent = true → Readable known bound rows) :
    ∃ enough, ∀ fuel store, enough ≤ fuel → store = none ∨ store = some rows →
      (store = none ∧ archive.resolveRanges hashing fuel store roots prepared includeContent =
        some (.ok none)) ∨
      ∃ ranges, archive.resolveRanges hashing fuel store roots prepared includeContent =
          some (.ok (some ranges)) ∧
        Resolves hashing known includeContent contents bound ranges := by
  obtain ⟨parts, partsHold, grouped⟩ := exists_parts holds
  obtain ⟨forests, grounded, partsAre⟩ := exists_forests partsHold
  have checked : roots.forM (archive.requireOwned hashing) = .ok ⟨⟩ := by
    rw [forM_eq_ok]
    intro root member
    exact refuse_of_not (not_not.mpr (owned root member))
  have start : Progress hashing known (roots.flatMap ArchiveRoot.slices) forests includeContent
      bound { queue := startQueue (roots.flatMap ArchiveRoot.slices) } := .start grounded
  refine ⟨effort forests bound { queue := startQueue (roots.flatMap ArchiveRoot.slices) } + 1, ?_⟩
  intro fuel store enough offered
  rw [ContentArchive.resolveRanges, binds, checked]
  dsimp only
  cases resolveLoop_spec grounded sources readable offered start enough with
  | inl undecided =>
    rw [undecided.2]
    exact .inl ⟨undecided.1, rfl⟩
  | inr decided =>
    obtain ⟨final, final_eq, progress, finished⟩ := decided
    have groups_eq : (roots.flatMap ArchiveRoot.slices).zipIdx.mapM
        (fun entry => groupOf final.matched entry.2 entry.1) = .ok parts := by
      rw [mapM_eq_ok]
      refine partsAre.imp ?_
      intro entry part here
      rw [here.2]
      exact groupOf_eq_ok grounded progress finished here.1
    rw [final_eq]
    dsimp only
    rw [groups_eq, ok_bind]
    right
    refine ⟨_, rfl, grouped, ⟨rfl, ?_, ?_⟩, ?_⟩
    · intro identity node found
      dsimp only at found
      rw [Table.lookup_union, Option.or_eq_some_iff] at found
      cases found with
      | inl fetched => exact progress.nodes _ _ fetched
      | inr remembered => exact sources.remembered _ _ remembered.2
    · intro identity node found
      dsimp only
      rw [Table.lookup_union]
      cases fetched : final.nodes.lookup identity with
      | none => exact found
      | some same =>
        have sameKnown := progress.nodes _ _ fetched
        rw [sources.remembered _ _ found] at sameKnown
        rw [Option.some_or, sameKnown]
    · intro on content member
      rw [← grouped] at member
      obtain ⟨part, partMember, inPart⟩ := mem_flatten.mp (mem_of_mem_regroup member)
      obtain ⟨entry, _, entry_eq⟩ :=
        exists_related (List.Forall₂.flip (mapM_eq_ok.mp groups_eq)) partMember
      obtain ⟨position, matched⟩ := exists_matched entry_eq inPart
      have held := progress.held on _ _ matched
      rw [finished.bodyPending] at held
      cases held with
      | inr waiting =>
        obtain ⟨_, impossible, _⟩ := waiting
        cases impossible
      | inl present =>
        obtain ⟨record, record_eq⟩ := Option.isSome_iff_exists.mp present
        refine ⟨record, ?_, progress.identified _ _ record_eq⟩
        rw [if_pos on, Table.lookup_restrict, if_pos member, record_eq]

end Linktools.Archive
