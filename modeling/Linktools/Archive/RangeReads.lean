import Linktools.Archive.RangeJobs

namespace Linktools.Archive

open Linktools.Core Library Library.SkewForest List

/-! The resolution of sound ranges: what is processed and what waits cover every position at
most once, and a wanted one exactly once. -/

variable {Digest Raw Payload : Type} [DecidableEq Digest] {known : Known Digest}
  {spans : List (ArchiveSlice Digest)} {forests : List (List (SkewTree (Item Digest)))}
  {job : RangeNode Digest} {node : ImmutableSequenceNode Digest}
  {hashing : Hashing Digest Raw Payload} {prepared : PreparedArchive Digest Payload}
  {rows : ArchiveStore Digest Payload} {includeContent : Bool}
  {state next : Resolution Digest Payload}

structure Opens (known : Known Digest) (spans : List (ArchiveSlice Digest))
    (forests : List (List (SkewTree (Item Digest)))) (job : RangeNode Digest)
    (opened : List (RangeNode Digest)) : Prop where
  valid : ∀ child ∈ opened, ValidJob known spans forests child
  within : ∀ place, indicator (sitsAt place job = true) + opened.countP (covers forests place) ≤
    indicator (covers forests place job = true)
  wanted : ∀ place, Wanted spans place → indicator (covers forests place job = true) ≤
      indicator (sitsAt place job = true) + opened.countP (covers forests place)
  lighter : (opened.map (load forests)).sum + 1 ≤ load forests job
  few : opened.length ≤ 3

omit [DecidableEq Digest] in
omit [DecidableEq Digest] in
theorem JobAt.outside_of_not_expands (at_ : JobAt known spans forests job tree)
    (closed : job.expands spans = false) (low : job.offset ≤ position)
    (high : position < job.offset + job.size) : ¬Wanted spans (job.span, position) := by
  intro wanted
  obtain ⟨above, below⟩ := wanted
  dsimp only at above below
  have meets : intersects (rangeOf spans job.span).1 (rangeOf spans job.span).2 job.offset
      job.size = true := by
    rw [intersects, decide_eq_true_eq]
    omega
  rw [RangeNode.expands, at_.expand meets, meets] at closed
  cases closed

omit [DecidableEq Digest] in
theorem opens_expanded (at_ : JobAt known spans forests job tree)
    (after : Covering known spans forests job.span (job.offset + job.size) (reach forests job) 1
      following)
    (below : Covering known spans forests job.span (job.offset + 1) (job.offset + job.size) 2
      children) : Opens known spans forests job (following ++ children) := by
  have positive := at_.size_pos
  have bound := at_.le_reach
  have exact_ : ∀ place, indicator (sitsAt place job = true) +
      (following ++ children).countP (covers forests place) =
        indicator (covers forests place job = true) := by
    intro place
    rw [countP_append, after.exact, below.exact]
    simp only [indicator, sitsAt, covers, decide_eq_true_eq]
    split <;> split <;> split <;> split <;> omega
  refine ⟨?_, fun place => (exact_ place).le, fun place _ => (exact_ place).ge, ?_, ?_⟩
  · intro child member
    cases mem_append.mp member with
    | inl inside => exact after.valid child inside
    | inr inside => exact below.valid child inside
  · rw [map_append, sum_append, after.weighs, below.weighs, load]
    omega
  · have := after.few
    have := below.few
    rw [length_append]
    omega

omit [DecidableEq Digest] in
theorem opens_closed (at_ : JobAt known spans forests job tree)
    (after : Covering known spans forests job.span (job.offset + job.size) (reach forests job) 1
      following) (closed : job.expands spans = false) :
    Opens known spans forests job following := by
  have positive := at_.size_pos
  have bound := at_.le_reach
  refine ⟨after.valid, ?_, ?_, ?_, after.few.trans (by decide)⟩
  · intro place
    rw [after.exact]
    simp only [indicator, sitsAt, covers, decide_eq_true_eq]
    split <;> split <;> split <;> omega
  · intro place wanted
    rw [after.exact]
    by_cases here : job.span = place.1 ∧ job.offset ≤ place.2 ∧ place.2 < job.offset + job.size
    case pos =>
      obtain ⟨span, low, high⟩ := here
      have outside := at_.outside_of_not_expands closed low high
      rw [span] at outside
      exact absurd wanted outside
    case neg =>
      simp only [indicator, sitsAt, covers, decide_eq_true_eq]
      split <;> split <;> split <;> omega
  · rw [after.weighs, load]
    omega

structure Sources (hashing : Hashing Digest Raw Payload) (known : Known Digest)
    (prepared : PreparedArchive Digest Payload) (rows : ArchiveStore Digest Payload) : Prop where
  remembered : Within (fun identity => prepared.nodes.lookup identity) known
  stored : Within (fun identity => rows.sequences.lookup identity) known
  split : ∀ identity node, known identity = some node →
    prepared.nodes.lookup identity = some node ∨ rows.sequences.lookup identity = some node
  addressed : ∀ identity node, rows.sequences.lookup identity = some node →
    hashing.hashNode node = identity
  bodies : ∀ identity content, rows.contents.lookup identity = some content →
    hashing.contentIdentity content = identity
  preparedBodies : ∀ identity content, prepared.contents.lookup identity = some content →
    hashing.contentIdentity content = identity

def Readable (known : Known Digest) (prepared : PreparedArchive Digest Payload)
    (rows : ArchiveStore Digest Payload) : Prop :=
  ∀ identity node, known identity = some node →
    (prepared.contents.lookup node.contentId).isSome = true ∨
      rows.sequences.lookup identity = some node ∧
        (rows.contents.lookup node.contentId).isSome = true

structure Progress (hashing : Hashing Digest Raw Payload) (known : Known Digest)
    (spans : List (ArchiveSlice Digest)) (forests : List (List (SkewTree (Item Digest))))
    (includeContent : Bool) (prepared : PreparedArchive Digest Payload)
    (state : Resolution Digest Payload) : Prop where
  nodes : Within (fun identity => state.nodes.lookup identity) known
  valid : ∀ job ∈ state.queue ++ state.pending, ValidJob known spans forests job
  parked : ∀ job ∈ state.pending, prepared.nodes.lookup job.identity = none
  once : ∀ place, state.processed.countP (sitsAt place) +
    (state.queue ++ state.pending).countP (covers forests place) ≤ 1
  covered : ∀ place, Wanted spans place → 1 ≤ state.processed.countP (sitsAt place) +
    (state.queue ++ state.pending).countP (covers forests place)
  sound : ∀ span position content, state.matched.lookup (span, position) = some content →
    ((items (forestOf forests span))[(rangeOf spans span).1 + position]?).map Prod.snd =
        some content ∧
      ∃ job ∈ state.processed, job.span = span ∧ job.offset = (rangeOf spans span).1 + position
  complete : ∀ job ∈ state.processed, Wanted spans (job.span, job.offset) →
    (state.matched.lookup (job.span, job.offset - (rangeOf spans job.span).1)).isSome = true
  identified : ∀ identity content, state.contents.lookup identity = some content →
    hashing.contentIdentity content = identity
  bodies : ∀ identity ∈ state.bodyPending, (state.nodes.lookup identity).isSome = true
  noBodies : includeContent = false → state.bodyPending = []
  held : includeContent = true → ∀ place content, state.matched.lookup place = some content →
    (state.contents.lookup content).isSome = true ∨
      ∃ identity ∈ state.bodyPending, ∃ node, state.nodes.lookup identity = some node ∧
        node.contentId = content

structure Visited (spans : List (ArchiveSlice Digest)) (includeContent : Bool)
    (job : RangeNode Digest) (node : ImmutableSequenceNode Digest)
    (opened : List (RangeNode Digest)) (before after : Resolution Digest Payload) : Prop where
  nodes : after.nodes = before.nodes.insert job.identity node
  contents : after.contents = before.contents
  queue : after.queue = before.queue ++ opened
  pending : after.pending = before.pending
  processed : after.processed = job :: before.processed
  matched : after.matched =
    if job.wanted spans = true then
      before.matched.insert (job.span, job.offset - (rangeOf spans job.span).1) node.contentId
    else before.matched
  bodyPending : after.bodyPending =
    if job.wanted spans = true ∧ includeContent = true ∧
        (before.contents.lookup node.contentId).isNone then
      before.bodyPending.insert job.identity
    else before.bodyPending

omit [DecidableEq Digest] in
theorem RangeNode.wanted_iff : job.wanted spans = true ↔ Wanted spans (job.span, job.offset) := by
  rw [RangeNode.wanted, decide_eq_true_eq, Wanted]

theorem recordMatch_eq_ok (includeContent : Bool) (node : ImmutableSequenceNode Digest)
    (state : Resolution Digest Payload) (fresh : Wanted spans (job.span, job.offset) →
      state.matched.lookup (job.span, job.offset - (rangeOf spans job.span).1) = none) :
    ∃ recorded, recordMatch spans includeContent job node state = .ok recorded ∧
      recorded = { state with
        matched :=
          if job.wanted spans = true then
            state.matched.insert (job.span, job.offset - (rangeOf spans job.span).1) node.contentId
          else state.matched
        bodyPending :=
          if job.wanted spans = true ∧ includeContent = true ∧
              (state.contents.lookup node.contentId).isNone then
            state.bodyPending.insert job.identity
          else state.bodyPending } := by
  rw [recordMatch]
  by_cases wanted : job.wanted spans = true
  case pos =>
    have none := fresh (RangeNode.wanted_iff.mp wanted)
    simp only [wanted, none, true_and, if_true, Option.isSome_none, Bool.false_eq_true]
    exact ⟨_, rfl, rfl⟩
  case neg =>
    simp only [wanted, false_and, if_false, Bool.false_eq_true]
    exact ⟨_, rfl, rfl⟩

theorem visit_spec (includeContent : Bool) (state : Resolution Digest Payload)
    (grounded : Grounded known spans forests) (at_ : JobAt known spans forests job tree)
    (found : known job.identity = some node) (fresh : Wanted spans (job.span, job.offset) →
      state.matched.lookup (job.span, job.offset - (rangeOf spans job.span).1) = none) :
    ∃ next opened, visit spans includeContent job node state = .ok next ∧
      Opens known spans forests job opened ∧
      Visited spans includeContent job node opened state next := by
  obtain ⟨following, following_eq, after⟩ := followingOf_spec grounded at_ found
  obtain ⟨_, count⟩ := at_.node_eq found
  rw [visit, refuse_of_not (not_not.mpr count), ok_bind, following_eq, ok_bind]
  cases expands : job.expands spans with
  | true =>
    obtain ⟨children, children_eq, below⟩ := childrenOf_spec at_ found
    obtain ⟨recorded, recorded_eq, shape⟩ := recordMatch_eq_ok includeContent node
      { state with
        nodes := state.nodes.insert job.identity node
        processed := job :: state.processed
        queue := state.queue ++ following } fresh
    rw [if_pos rfl, recorded_eq, ok_bind, children_eq, ok_bind]
    refine ⟨_, following ++ children, rfl, opens_expanded at_ after below, ?_⟩
    subst shape
    exact ⟨rfl, rfl, append_assoc _ _ _, rfl, rfl, rfl, rfl⟩
  | false =>
    have unwanted : job.wanted spans = false := by
      rw [Bool.eq_false_iff, Ne, RangeNode.wanted_iff]
      exact at_.outside_of_not_expands expands (le_refl _)
        (Nat.lt_add_of_pos_right at_.size_pos)
    rw [if_neg Bool.false_ne_true]
    refine ⟨_, following, rfl, opens_closed at_ after expands, ?_⟩
    exact ⟨rfl, rfl, rfl, rfl, rfl, by rw [unwanted]; rfl, by rw [unwanted]; simp⟩

section steps

section

variable (progress : Progress hashing known spans forests includeContent prepared state)
include progress

theorem Progress.countP_processed
    (queued : state.queue = job :: rest) (at_ : JobAt known spans forests job tree) :
    state.processed.countP (sitsAt (job.span, job.offset)) = 0 := by
  have once := progress.once (job.span, job.offset)
  have positive := at_.size_pos
  have bound := at_.le_reach
  have here : covers forests (job.span, job.offset) job = true := by
    rw [covers, decide_eq_true_eq]
    omega
  rw [queued, cons_append, countP_cons_of_pos here] at once
  omega

theorem Progress.not_processed
    (queued : state.queue = job :: rest) (at_ : JobAt known spans forests job tree) :
    job ∉ state.processed := by
  intro member
  have none := countP_eq_zero.mp (progress.countP_processed queued at_) job member
  apply none
  rw [sitsAt, decide_eq_true_eq]
  exact ⟨rfl, rfl⟩

theorem Progress.fresh (queued : state.queue = job :: rest)
    (at_ : JobAt known spans forests job tree) (wanted : Wanted spans (job.span, job.offset)) :
    state.matched.lookup (job.span, job.offset - (rangeOf spans job.span).1) = none := by
  cases found : state.matched.lookup (job.span, job.offset - (rangeOf spans job.span).1) with
  | none => rfl
  | some content =>
    obtain ⟨_, other, member, span, offset⟩ := progress.sound _ _ _ found
    have none := countP_eq_zero.mp (progress.countP_processed queued at_) other member
    have low : (rangeOf spans job.span).1 ≤ job.offset := wanted.1
    exfalso
    apply none
    rw [sitsAt, decide_eq_true_eq]
    exact ⟨span, by dsimp only; omega⟩

theorem Progress.visited
    (queued : state.queue = job :: rest) (at_ : JobAt known spans forests job tree)
    (found : known job.identity = some node) (opens : Opens known spans forests job opened)
    (visited : Visited spans includeContent job node opened { state with queue := rest } next) :
    Progress hashing known spans forests includeContent prepared next := by
  have content_eq := (at_.node_eq found).1
  have kept : ∀ identity same, state.nodes.lookup identity = some same →
      next.nodes.lookup identity = some same := by
    intro identity same earlier
    rw [visited.nodes]
    by_cases here : identity = job.identity
    case pos =>
      have known_eq := progress.nodes identity same earlier
      rw [here, found] at known_eq
      rw [here, AList.lookup_insert, known_eq]
    case neg => rw [AList.lookup_insert_ne here, earlier]
  have inserted : next.nodes.lookup job.identity = some node := by
    rw [visited.nodes, AList.lookup_insert]
  constructor
  case nodes =>
    intro identity same later
    dsimp only at later
    rw [visited.nodes] at later
    by_cases here : identity = job.identity
    case pos =>
      rw [here, AList.lookup_insert] at later
      rw [here, found, later]
    case neg =>
      rw [AList.lookup_insert_ne here] at later
      exact progress.nodes identity same later
  case valid =>
    rw [visited.queue, visited.pending]
    intro child member
    have old := progress.valid child
    rw [queued] at old
    simp only [mem_append, mem_cons] at member old
    rcases member with (inRest | isOpened) | waiting
    · exact old (.inl (.inr inRest))
    · exact opens.valid child isOpened
    · exact old (.inr waiting)
  case parked =>
    rw [visited.pending]
    exact progress.parked
  case once =>
    intro place
    have once := progress.once place
    have within := opens.within place
    rw [queued, cons_append, countP_cons, countP_append] at once
    rw [visited.queue, visited.pending, visited.processed, countP_cons, countP_append,
      countP_append]
    simp only [indicator] at within
    dsimp only
    omega
  case covered =>
    intro place wanted
    have covered := progress.covered place wanted
    have handed := opens.wanted place wanted
    rw [queued, cons_append, countP_cons, countP_append] at covered
    rw [visited.queue, visited.pending, visited.processed, countP_cons, countP_append,
      countP_append]
    simp only [indicator] at handed
    dsimp only
    omega
  case sound =>
    intro span position content recorded
    rw [visited.processed]
    have earlier : state.matched.lookup (span, position) = some content →
        ((items (forestOf forests span))[(rangeOf spans span).1 + position]?).map Prod.snd =
            some content ∧ ∃ other ∈ job :: state.processed, other.span = span ∧
            other.offset = (rangeOf spans span).1 + position := by
      intro old
      obtain ⟨item, other, member, place⟩ := progress.sound _ _ _ old
      exact ⟨item, other, mem_cons_of_mem _ member, place⟩
    rw [visited.matched] at recorded
    split at recorded
    case isTrue wanted =>
      have low : (rangeOf spans job.span).1 ≤ job.offset := (RangeNode.wanted_iff.mp wanted).1
      by_cases here : (span, position) = (job.span, job.offset - (rangeOf spans job.span).1)
      case pos =>
        rw [here, AList.lookup_insert, Option.some.injEq] at recorded
        cases here
        have place : (rangeOf spans job.span).1 + (job.offset - (rangeOf spans job.span).1) =
            job.offset := by omega
        rw [place, at_.item, Option.map_some, ← content_eq, recorded]
        exact ⟨rfl, job, mem_cons_self, rfl, rfl⟩
      case neg =>
        rw [AList.lookup_insert_ne here] at recorded
        exact earlier recorded
    case isFalse => exact earlier recorded
  case complete =>
    intro other member wanted
    rw [visited.processed] at member
    rw [visited.matched]
    have old : other ∈ state.processed → (state.matched.lookup
        (other.span, other.offset - (rangeOf spans other.span).1)).isSome = true :=
      fun inside => progress.complete other inside wanted
    cases mem_cons.mp member with
    | inl same =>
      subst same
      rw [if_pos (RangeNode.wanted_iff.mpr wanted), AList.lookup_insert]
      rfl
    | inr inside =>
      split
      case isTrue =>
        by_cases here : (other.span, other.offset - (rangeOf spans other.span).1) =
            (job.span, job.offset - (rangeOf spans job.span).1)
        case pos =>
          rw [here, AList.lookup_insert]
          rfl
        case neg =>
          rw [AList.lookup_insert_ne here]
          exact old inside
      case isFalse => exact old inside
  case identified =>
    rw [visited.contents]
    exact progress.identified
  case bodies =>
    intro identity member
    have old : identity ∈ state.bodyPending → (next.nodes.lookup identity).isSome = true := by
      intro earlier
      obtain ⟨same, sameFound⟩ := Option.isSome_iff_exists.mp (progress.bodies identity earlier)
      rw [kept identity same sameFound]
      rfl
    rw [visited.bodyPending] at member
    split at member
    case isTrue =>
      cases mem_insert_iff.mp member with
      | inl same =>
        rw [same, inserted]
        rfl
      | inr earlier => exact old earlier
    case isFalse => exact old member
  case noBodies =>
    intro off
    rw [visited.bodyPending, if_neg (by simp [off])]
    exact progress.noBodies off
  case held =>
    intro on place content recorded
    have old : state.matched.lookup place = some content →
        (next.contents.lookup content).isSome = true ∨
          ∃ identity ∈ next.bodyPending, ∃ node, next.nodes.lookup identity = some node ∧
            node.contentId = content := by
      intro earlier
      rw [visited.contents]
      cases progress.held on place content earlier with
      | inl present => exact .inl present
      | inr body =>
        obtain ⟨identity, member, same, sameFound, named⟩ := body
        refine .inr ⟨identity, ?_, same, kept identity same sameFound, named⟩
        rw [visited.bodyPending]
        split
        case isTrue => exact mem_insert_of_mem member
        case isFalse => exact member
    rw [visited.matched] at recorded
    split at recorded
    case isTrue wanted =>
      by_cases here : place = (job.span, job.offset - (rangeOf spans job.span).1)
      case pos =>
        rw [here, AList.lookup_insert, Option.some.injEq] at recorded
        rw [visited.contents, visited.bodyPending, ← recorded]
        by_cases absent : (state.contents.lookup node.contentId).isNone = true
        case pos =>
          right
          rw [if_pos ⟨wanted, on, absent⟩]
          exact ⟨job.identity, mem_insert_self, node, inserted, rfl⟩
        case neg => exact .inl (Option.isSome_iff_ne_none.mpr
        (mt Option.isNone_iff_eq_none.mpr absent))
      case neg =>
        rw [AList.lookup_insert_ne here] at recorded
        exact old recorded
    case isFalse => exact old recorded

theorem Progress.park
    (queued : state.queue = job :: rest) (unknown : knownNode prepared state job.identity = none) :
    Progress hashing known spans forests includeContent prepared
      { state with queue := rest, pending := state.pending ++ [job] } := by
  have counted : ∀ place, (rest ++ (state.pending ++ [job])).countP (covers forests place) =
      (state.queue ++ state.pending).countP (covers forests place) := by
    intro place
    rw [queued, cons_append, countP_cons, countP_append, countP_append,
      countP_append, countP_singleton, add_assoc]
  refine { progress with valid := ?_, parked := ?_, once := ?_, covered := ?_ }
  · intro child member
    apply progress.valid child
    rw [queued]
    simp only [mem_append, mem_cons, not_mem_nil, or_false] at member ⊢
    rcases member with inRest | waiting | same
    · exact .inl (.inr inRest)
    · exact .inr waiting
    · exact .inl (.inl same)
  · intro child member
    cases mem_append.mp member with
    | inl waiting => exact progress.parked child waiting
    | inr same =>
      rw [mem_singleton.mp same]
      exact (Option.or_eq_none_iff.mp unknown).2
  · intro place
    rw [counted]
    exact progress.once place
  · intro place wanted
    rw [counted]
    exact progress.covered place wanted

end

end steps

variable {read : ArchiveNodeRead Digest}

theorem decodeNodeRecord_eq_ok (addressed : hashing.hashNode node = identity) :
    ContentArchive.decodeNodeRecord hashing identity node = .ok node :=
  if_pos addressed

theorem relatedOf_eq_ok (request : ArchiveNodeRead Digest)
    (addressed : ∀ identity node, table.lookup identity = some node →
      hashing.hashNode node = identity) :
    ∃ related, ContentArchive.relatedOf hashing table request = .ok related ∧
      ∀ node, table.lookup request.identity = some node →
        ArchiveNodeSlot.self ∈ request.contentSlots → request.identity ∈ related.2 := by
  rw [ContentArchive.relatedOf]
  cases found : table.lookup request.identity with
  | none => exact ⟨([], []), rfl, nofun⟩
  | some record =>
    have own := addressed _ _ found
    dsimp only
    rw [decodeNodeRecord_eq_ok own, ok_bind]
    refine ⟨_, rfl, ?_⟩
    intro node _ wanted
    change request.identity ∈ slotsIn request.contentSlots _
    rw [slotsIn, mem_map]
    refine ⟨(.self, request.identity), ?_, rfl⟩
    rw [mem_filter, decide_eq_true_eq]
    exact ⟨by simp [nodeSlots, own], wanted⟩

theorem bodyOf_eq_ok (identity : Digest)
    (addressed : ∀ identity node, table.lookup identity = some node →
      hashing.hashNode node = identity) :
    ∃ bodies, ContentArchive.bodyOf hashing table identity = .ok bodies ∧
      ∀ node, table.lookup identity = some node → node.contentId ∈ bodies := by
  rw [ContentArchive.bodyOf]
  cases found : table.lookup identity with
  | none => exact ⟨[], rfl, nofun⟩
  | some record =>
    dsimp only
    rw [decodeNodeRecord_eq_ok (addressed _ _ found), ok_bind]
    refine ⟨_, rfl, ?_⟩
    intro node same
    rw [Option.some.inj same]
    exact mem_singleton_self _

structure Answers (rows answer : ArchiveStore Digest Payload)
    (requests : List (ArchiveNodeRead Digest)) (contentKeys : List Digest) : Prop where
  sequences : Within (fun identity => answer.sequences.lookup identity)
    fun identity => rows.sequences.lookup identity
  requested : ∀ request ∈ requests,
    answer.sequences.lookup request.identity = rows.sequences.lookup request.identity
  contents : ∀ identity content, answer.contents.lookup identity = some content →
    rows.contents.lookup identity = some content
  keyed : ∀ identity ∈ contentKeys, answer.contents.lookup identity = rows.contents.lookup identity
  bodies : ∀ request ∈ requests, ArchiveNodeSlot.self ∈ request.contentSlots →
    ∀ node, rows.sequences.lookup request.identity = some node →
      answer.contents.lookup node.contentId = rows.contents.lookup node.contentId

omit [DecidableEq Digest] in
theorem exists_related {α β : Type} {relation : α → β → Prop} {left : List α} {right : List β}
    {item : α} (related : List.Forall₂ relation left right) (member : item ∈ left) :
    ∃ other ∈ right, relation item other := by
  induction related with
  | nil => cases member
  | cons here _ ih =>
    cases mem_cons.mp member with
    | inl same =>
      rw [same]
      exact ⟨_, mem_cons_self, here⟩
    | inr later =>
      obtain ⟨other, inside, holds⟩ := ih later
      exact ⟨other, mem_cons_of_mem _ inside, holds⟩

omit [DecidableEq Digest] in
theorem lookup_of_restrict {κ ν : Type} [DecidableEq κ] {entries : Table κ ν} {keys : List κ}
    {key : κ} {value : ν} (found : (Table.restrict entries keys).lookup key = some value) :
    entries.lookup key = some value := by
  rw [Table.lookup_restrict] at found
  split at found
  case isTrue => exact found
  case isFalse => cases found

theorem frontiers_spec (requests : List (ArchiveNodeRead Digest)) (contentKeys : List Digest)
    (addressed : ∀ identity node, rows.sequences.lookup identity = some node →
      hashing.hashNode node = identity) :
    ∃ answer, ContentArchive.frontiers hashing rows requests contentKeys = .ok answer ∧
      Answers rows answer requests contentKeys := by
  have addressedIn : ∀ keys identity node,
      (Table.restrict rows.sequences keys).lookup identity = some node →
        hashing.hashNode node = identity :=
    fun keys identity node found => addressed identity node (lookup_of_restrict found)
  obtain ⟨related, related_eq, relatedHolds⟩ := exists_mapM
    (fun request (_ : request ∈ requests) => relatedOf_eq_ok request
      (addressedIn (requests.map ArchiveNodeRead.identity)))
  obtain ⟨bodies, bodies_eq, bodiesHold⟩ := exists_mapM
    (fun identity (_ : identity ∈ related.flatMap Prod.snd) => bodyOf_eq_ok identity
      (addressedIn (requests.map ArchiveNodeRead.identity ++ related.flatMap Prod.fst)))
  have asked : ∀ request ∈ requests, request.identity ∈ requests.map ArchiveNodeRead.identity :=
    fun request member => mem_map_of_mem member
  rw [ContentArchive.frontiers, related_eq, ok_bind]
  dsimp only
  rw [bodies_eq, ok_bind]
  refine ⟨_, rfl, ?_, ?_, ?_, ?_, ?_⟩
  · exact fun identity node found => lookup_of_restrict found
  · intro request member
    rw [Table.lookup_restrict, if_pos (mem_append_left _ (asked request member))]
  · exact fun identity content found => lookup_of_restrict found
  · intro identity member
    rw [Table.lookup_restrict, if_pos (mem_append_left _ member)]
  · intro request member wanted node found
    rw [Table.lookup_restrict, if_pos]
    apply mem_append_right
    obtain ⟨result, resultMember, resultHolds⟩ := exists_related relatedHolds member
    have wantedIn : request.identity ∈ result.2 := by
      refine resultHolds node ?_ wanted
      rw [Table.lookup_restrict, if_pos (asked request member), found]
    obtain ⟨body, bodyMember, bodyHolds⟩ := exists_related bodiesHold
      (mem_flatMap.mpr ⟨result, resultMember, wantedIn⟩)
    refine mem_flatten.mpr ⟨body, bodyMember, bodyHolds node ?_⟩
    rw [Table.lookup_restrict, if_pos (mem_append_left _ (asked request member)), found]

def Requested (requests : Table Digest (ArchiveNodeRead Digest)) (read : ArchiveNodeRead Digest) :
    Prop :=
  ∃ merged, requests.lookup read.identity = some merged ∧ merged.identity = read.identity ∧
    ∀ slot ∈ read.contentSlots, slot ∈ merged.contentSlots

theorem requested_add : Requested (addRequest requests read) read := by
  rw [Requested, addRequest]
  cases requests.lookup read.identity with
  | none => exact ⟨read, AList.lookup_insert requests, rfl, fun _ member => member⟩
  | some previous =>
    exact ⟨_, AList.lookup_insert requests, rfl, fun _ member => mem_append_left _ member⟩

theorem Requested.add
    (requested : Requested requests read) : Requested (addRequest requests other) read := by
  obtain ⟨merged, found, identity, slots⟩ := requested
  rw [Requested, addRequest]
  by_cases same : read.identity = other.identity
  case pos =>
    rw [← same, found]
    exact ⟨_, AList.lookup_insert requests, same.symm,
      fun slot member => mem_append_right _ (slots slot member)⟩
  case neg =>
    cases requests.lookup other.identity with
    | none => exact ⟨merged, by rw [AList.lookup_insert_ne same, found], identity, slots⟩
    | some previous => exact ⟨merged, by rw [AList.lookup_insert_ne same, found], identity, slots⟩

theorem requested_foldl {reads : List (ArchiveNodeRead Digest)}
    (asked : Requested requests read ∨ read ∈ reads) :
    Requested (reads.foldl addRequest requests) read := by
  induction reads generalizing requests with
  | nil =>
    cases asked with
    | inl requested => exact requested
    | inr impossible => cases impossible
  | cons head tail ih =>
    rw [foldl_cons]
    apply ih
    cases asked with
    | inl requested => exact .inl requested.add
    | inr member =>
      cases mem_cons.mp member with
      | inl same =>
        rw [same]
        exact .inl requested_add
      | inr later => exact .inr later

theorem exists_request (member : read ∈ state.pending.map (jobRead spans includeContent) ++
      state.bodyPending.map bodyRead) :
    ∃ request ∈ (Table.items (requestsOf spans includeContent state)).map Prod.snd,
      request.identity = read.identity ∧
        ∀ slot ∈ read.contentSlots, slot ∈ request.contentSlots := by
  have requested : Requested (requestsOf spans includeContent state) read :=
    requested_foldl (.inr member)
  obtain ⟨merged, found, identity, slots⟩ := requested
  exact ⟨merged, mem_map.mpr ⟨_, Table.mem_items.mpr found, rfl⟩, identity, slots⟩

theorem adoptPrepared_spec (nodes : Table Digest (ImmutableSequenceNode Digest))
    (bodies : List Digest)
    (preparedBodies : ∀ identity content, prepared.contents.lookup identity = some content →
      hashing.contentIdentity content = identity)
    (present : ∀ identity ∈ bodies, (nodes.lookup identity).isSome = true)
    (identified : ∀ identity content, contents.lookup identity = some content →
      hashing.contentIdentity content = identity) :
    ∃ adopted, bodies.foldlM (adoptPrepared hashing prepared nodes) contents = .ok adopted ∧
      (∀ identity content, adopted.lookup identity = some content →
        hashing.contentIdentity content = identity) ∧
      (∀ identity, (contents.lookup identity).isSome = true →
        (adopted.lookup identity).isSome = true) ∧
      ∀ identity ∈ bodies, ∀ node, nodes.lookup identity = some node →
        (prepared.contents.lookup node.contentId).isSome = true →
          (adopted.lookup node.contentId).isSome = true := by
  induction bodies generalizing contents with
  | nil => exact ⟨contents, rfl, identified, fun _ found => found, by simp⟩
  | cons identity bodies ih =>
    obtain ⟨node, found⟩ := Option.isSome_iff_exists.mp (present identity mem_cons_self)
    obtain ⟨middle, middle_eq, middleIdentified, grown, adoptedHere⟩ : ∃ middle,
        adoptPrepared hashing prepared nodes contents identity = .ok middle ∧
        (∀ identity content, middle.lookup identity = some content →
          hashing.contentIdentity content = identity) ∧
        (∀ identity, (contents.lookup identity).isSome = true →
          (middle.lookup identity).isSome = true) ∧
        ((prepared.contents.lookup node.contentId).isSome = true →
          (middle.lookup node.contentId).isSome = true) := by
      rw [adoptPrepared, found, show orRaise (some node) Raised.integrity = .ok node from rfl,
        ok_bind]
      cases stored : prepared.contents.lookup node.contentId with
      | none => exact ⟨contents, rfl, identified, fun _ found => found, by simp⟩
      | some content =>
        have own := preparedBodies _ _ stored
        dsimp only
        rw [refuse_of_not (not_not.mpr own), ok_bind]
        refine ⟨_, rfl, ?_, ?_, ?_⟩
        · intro other otherContent otherFound
          by_cases here : other = node.contentId
          case pos =>
            rw [here, AList.lookup_insert, Option.some.injEq] at otherFound
            rw [here, ← otherFound, own]
          case neg =>
            rw [AList.lookup_insert_ne here] at otherFound
            exact identified other otherContent otherFound
        · intro other otherFound
          by_cases here : other = node.contentId
          case pos =>
            rw [here, AList.lookup_insert]
            rfl
          case neg => rwa [AList.lookup_insert_ne here]
        · intro _
          rw [AList.lookup_insert]
          rfl
    obtain ⟨adopted, adopted_eq, adoptedIdentified, adoptedGrown, adoptedRest⟩ := ih
      (fun other member => present other (mem_cons_of_mem _ member)) middleIdentified
    refine ⟨adopted, ?_, adoptedIdentified, fun other there => adoptedGrown other
      (grown other there), ?_⟩
    · rw [foldlM_cons, middle_eq, ok_bind, adopted_eq]
    · intro other member otherNode otherFound there
      cases mem_cons.mp member with
      | inl same =>
        rw [same, found, Option.some.injEq] at otherFound
        subst otherFound
        exact adoptedGrown _ (adoptedHere there)
      | inr later => exact adoptedRest other later otherNode otherFound there

omit [DecidableEq Digest] in
theorem ValidJob.node_known (valid : ValidJob known spans forests job) :
    ∃ node, known job.identity = some node := by
  obtain ⟨tree, at_⟩ := valid
  obtain ⟨node, found, _⟩ := at_.known.own_known
  rw [at_.named] at found
  exact ⟨node, found⟩

/-- A read goes through and makes the nodes of all waiting jobs known. -/
theorem fetch_spec (sources : Sources hashing known prepared rows)
    (readable : includeContent = true → Readable known prepared rows)
    (progress : Progress hashing known spans forests includeContent prepared state)
    (drained : state.queue = []) :
    ∃ next, fetch spans includeContent hashing prepared rows state = .ok next ∧
      Progress hashing known spans forests includeContent prepared next ∧
      next.queue = state.pending ∧ next.pending = [] ∧ next.bodyPending = [] ∧
      ∀ job ∈ state.pending, (next.nodes.lookup job.identity).isSome = true := by
  obtain ⟨answer, answer_eq, answers⟩ := frontiers_spec
    ((Table.items (requestsOf spans includeContent state)).map Prod.snd) [] sources.addressed
  have sequencesDecode : (Table.items answer.sequences).forM
      (ContentArchive.decodeNodeRow hashing) = .ok ⟨⟩ := by
    rw [forM_eq_ok]
    intro row member
    have stored := answers.sequences _ _ (Table.mem_items.mp member)
    rw [ContentArchive.decodeNodeRow, decodeNodeRecord_eq_ok (sources.addressed _ _ stored)]
    rfl
  have contentsDecode : (Table.items answer.contents).forM
      (ContentArchive.decodeContentRow hashing) = .ok ⟨⟩ := by
    rw [forM_eq_ok]
    intro row member
    have stored := answers.contents _ _ (Table.mem_items.mp member)
    exact refuse_of_not (not_not.mpr (sources.bodies _ _ stored))
  have nodes_lookup : ∀ identity, (answer.sequences ∪ state.nodes).lookup identity =
      (answer.sequences.lookup identity).or (state.nodes.lookup identity) :=
    fun _ => Table.lookup_union
  have contents_lookup : ∀ identity, (answer.contents ∪ state.contents).lookup identity =
      (answer.contents.lookup identity).or (state.contents.lookup identity) :=
    fun _ => Table.lookup_union
  have within : Within (fun identity => (answer.sequences ∪ state.nodes).lookup identity)
    known := by
    intro identity node found
    dsimp only at found
    rw [nodes_lookup, Option.or_eq_some_iff] at found
    cases found with
    | inl fromRows => exact sources.stored _ _ (answers.sequences _ _ fromRows)
    | inr earlier => exact progress.nodes _ _ earlier.2
  have kept : ∀ identity node, state.nodes.lookup identity = some node →
      (answer.sequences ∪ state.nodes).lookup identity = some node := by
    intro identity node earlier
    have isKnown := progress.nodes _ _ earlier
    cases fromRows : answer.sequences.lookup identity with
    | none => rw [nodes_lookup, fromRows, Option.none_or, earlier]
    | some same =>
      have sameKnown := sources.stored _ _ (answers.sequences _ _ fromRows)
      rw [isKnown] at sameKnown
      rw [nodes_lookup, fromRows, sameKnown, Option.some_or]
  have identified : ∀ identity content,
      (answer.contents ∪ state.contents).lookup identity = some content →
        hashing.contentIdentity content = identity := by
    intro identity content found
    rw [contents_lookup, Option.or_eq_some_iff] at found
    cases found with
    | inl fromRows => exact sources.bodies _ _ (answers.contents _ _ fromRows)
    | inr earlier => exact progress.identified _ _ earlier.2
  obtain ⟨adopted, adopted_eq, adoptedIdentified, grown, adoptedBodies⟩ :=
    adoptPrepared_spec (answer.sequences ∪ state.nodes) state.bodyPending sources.preparedBodies
      (fun identity member => by
        obtain ⟨node, found⟩ := Option.isSome_iff_exists.mp (progress.bodies identity member)
        rw [kept identity node found]
        rfl)
      identified
  have arrived : ∀ job ∈ state.pending,
      ((answer.sequences ∪ state.nodes).lookup job.identity).isSome = true := by
    intro job member
    obtain ⟨node, found⟩ := (progress.valid job (by rw [drained]; exact member)).node_known
    have stored : rows.sequences.lookup job.identity = some node := by
      cases sources.split _ _ found with
      | inl fromPrepared =>
        rw [progress.parked job member] at fromPrepared
        cases fromPrepared
      | inr stored => exact stored
    have asked : jobRead spans includeContent job ∈
        state.pending.map (jobRead spans includeContent) ++ state.bodyPending.map bodyRead :=
      mem_append_left _ (mem_map_of_mem member)
    obtain ⟨request, sent, named, _⟩ := exists_request asked
    have identity : request.identity = job.identity := named
    have received := answers.requested request sent
    rw [identity, stored] at received
    rw [nodes_lookup, received]
    rfl
  have provided : ∀ identity ∈ state.bodyPending, ∀ node,
      (answer.sequences ∪ state.nodes).lookup identity = some node →
        (adopted.lookup node.contentId).isSome = true := by
    intro identity member node found
    have on : includeContent = true := by
      cases off : includeContent with
      | true => rfl
      | false =>
        rw [progress.noBodies off] at member
        cases member
    cases readable on identity node (within identity node found) with
    | inl fromPrepared => exact adoptedBodies identity member node found fromPrepared
    | inr fromRows =>
      obtain ⟨stored, body⟩ := fromRows
      have asked : bodyRead identity ∈
          state.pending.map (jobRead spans includeContent) ++ state.bodyPending.map bodyRead :=
        mem_append_right _ (mem_map_of_mem member)
      obtain ⟨request, sent, named, slots⟩ := exists_request asked
      have ownIdentity : request.identity = identity := named
      have received := answers.bodies request sent (slots _ mem_cons_self) node
        (by rw [ownIdentity]; exact stored)
      apply grown
      rw [contents_lookup, received]
      obtain ⟨content, content_eq⟩ := Option.isSome_iff_exists.mp body
      rw [content_eq]
      rfl
  have noneMissing : ¬∃ job ∈ state.pending,
      (answer.sequences ∪ state.nodes).lookup job.identity = none := by
    rintro ⟨job, member, missing⟩
    have there := arrived job member
    rw [missing] at there
    cases there
  have noBodyMissing : ¬∃ identity ∈ state.bodyPending,
      ∀ node ∈ (answer.sequences ∪ state.nodes).lookup identity,
        adopted.lookup node.contentId = none := by
    rintro ⟨identity, member, missing⟩
    obtain ⟨node, found⟩ := Option.isSome_iff_exists.mp (progress.bodies identity member)
    have there := provided identity member node (kept identity node found)
    rw [missing node (kept identity node found)] at there
    cases there
  rw [fetch, answer_eq, ok_bind, sequencesDecode, ok_bind, contentsDecode, ok_bind]
  dsimp only
  rw [adopted_eq, ok_bind, refuse_of_not noneMissing, ok_bind, refuse_of_not noBodyMissing, ok_bind]
  refine ⟨_, rfl, ?_, by rw [drained]; rfl, rfl, rfl, arrived⟩
  have same : ∀ place, (state.queue ++ state.pending ++ []).countP (covers forests place) =
      (state.queue ++ state.pending).countP (covers forests place) := by
    intro place
    rw [append_nil]
  constructor
  case nodes => exact within
  case valid =>
    intro job member
    rw [append_nil] at member
    exact progress.valid job member
  case parked => nofun
  case once =>
    intro place
    rw [same]
    exact progress.once place
  case covered =>
    intro place wanted
    rw [same]
    exact progress.covered place wanted
  case sound => exact progress.sound
  case complete => exact progress.complete
  case identified => exact adoptedIdentified
  case bodies => nofun
  case noBodies => exact fun _ => rfl
  case held =>
    intro on place content recorded
    left
    cases progress.held on place content recorded with
    | inl present =>
      apply grown
      rw [contents_lookup]
      cases answer.contents.lookup content with
      | none => exact present
      | some _ => rfl
    | inr body =>
      obtain ⟨identity, member, node, found, named⟩ := body
      rw [← named]
      exact provided identity member node (kept identity node found)

end Linktools.Archive
