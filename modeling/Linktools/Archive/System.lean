import Linktools.Archive.Rewrites
import Linktools.Library.Machine

namespace Linktools.Archive

open Library Option

/-! What a sound preparation reads: the contents of its roots, alone or together, and a rewrite
from the contents of the old root. -/

variable {Digest Raw Payload : Type} [DecidableEq Digest] {archive : ContentArchive}
  {hashing : Hashing Digest Raw Payload} {store : ArchiveStore Digest Payload}
  {roots : List (ArchiveRoot Digest)} {contents : List (List Digest)} {root : ArchiveRoot Digest}
  {ids : List Digest}

theorem knownIn_empty : knownIn store {} = storedIn store := by
  funext identity
  rw [knownIn, AList.lookup_empty, none_or, storedIn]

theorem StoreSound.fresh (sound : StoreSound hashing store) :
    PreparedSound archive hashing store {} where
  owner := .inl rfl
  addressed := by
    rw [knownIn_empty]
    exact sound.addressed
  wellFormed := by
    rw [knownIn_empty]
    exact sound.wellFormed
  recorded := nofun
  published := nofun
  genuine := nofun
  observed := nofun

theorem Refreshed.grew (sound : PreparedSound archive hashing store before)
    (refreshed : Refreshed (knownIn store before) before after) :
    Grew archive hashing store before after ∧ knownIn store after = knownIn store before := by
  obtain ⟨rest, nodes, kept⟩ := refreshed
  have same : knownIn store after = knownIn store before := by
    funext identity
    rw [knownIn]
    cases found : after.nodes.lookup identity with
    | some node => rw [some_or, nodes identity node found]
    | none =>
      have absent : before.nodes.lookup identity = none := by
        cases earlier : before.nodes.lookup identity with
        | none => rfl
        | some node =>
          have still := kept identity node earlier
          dsimp only at still
          rw [found] at still
          cases still
      rw [knownIn, absent]
  generalize learnt : after.nodes = table at rest nodes kept
  subst rest
  refine ⟨⟨⟨sound.owner, ?_, ?_, ?_, ?_, sound.genuine, sound.observed⟩, ?_⟩, same⟩
  · rw [same]
    exact sound.addressed
  · rw [same]
    exact sound.wellFormed
  · exact sound.recorded.trans kept
  · intro identity node found
    have known := nodes identity node found
    rw [knownIn, or_eq_some_iff] at known
    cases known with
    | inl earlier => exact sound.published identity node earlier
    | inr stored => exact .inr stored.2
  · rw [same]
    exact .refl

theorem resolveLoop_more
    (answered : resolveLoop spans includeContent hashing before source fuel state = some answer)
    (wider : fuel ≤ more) :
    resolveLoop spans includeContent hashing before source more state = some answer := by
  induction fuel generalizing more state with
  | zero => cases answered
  | succ fuel ih =>
    obtain ⟨more, rfl⟩ := Nat.exists_eq_succ_of_ne_zero (by omega : more ≠ 0)
    have wider : fuel ≤ more := Nat.le_of_succ_le_succ wider
    rw [resolveLoop.eq_def] at answered ⊢
    dsimp only at answered ⊢
    split at answered
    case h_1 job rest queued =>
      split at answered
      case isTrue seen =>
        rw [if_pos seen]
        exact ih answered wider
      case isFalse fresh =>
        rw [if_neg fresh]
        split at answered
        case h_1 => exact ih answered wider
        case h_2 =>
          split at answered
          case h_1 => exact answered
          case h_2 => exact ih answered wider
    case h_2 =>
      split at answered
      case isTrue done =>
        rw [if_pos done]
        exact answered
      case isFalse unfinished =>
        rw [if_neg unfinished]
        split at answered
        case h_1 => exact answered
        case h_2 =>
          split at answered
          case h_1 => exact answered
          case h_2 => exact ih answered wider

namespace ContentArchive

variable {fuel more : Nat}

theorem resolveRanges_more
    (answered : archive.resolveRanges hashing fuel source roots before includeContent =
      some answer) (wider : fuel ≤ more) :
    archive.resolveRanges hashing more source roots before includeContent = some answer := by
  rw [resolveRanges] at answered ⊢
  split at answered
  case h_1 => exact answered
  case h_2 => exact answered
  case h_3 =>
    dsimp only at answered ⊢
    split at answered
    case h_1 => cases answered
    all_goals
      rename_i found
      rw [resolveLoop_more found wider]
      exact answered

variable {given : Option (PreparedArchive Digest Payload)}

theorem contentIdsMany_more
    (answered : archive.contentIdsMany hashing fuel store roots given = some answer)
    (wider : fuel ≤ more) :
    archive.contentIdsMany hashing more store roots given = some answer := by
  rw [contentIdsMany] at answered ⊢
  dsimp only at answered ⊢
  split at answered
  case isTrue tried =>
    rw [if_pos tried]
    split at answered
    case h_1 undecided =>
      rw [resolveRanges_more undecided wider]
      obtain ⟨outcome, found, rfl⟩ := map_eq_some_iff.mp answered
      dsimp only
      rw [resolveRanges_more found wider]
      rfl
    case h_2 decided =>
      obtain ⟨outcome, found, rfl⟩ := map_eq_some_iff.mp answered
      rw [resolveRanges_more found wider]
      split
      case h_1 undecided =>
        cases undecided
        exact absurd found decided
      case h_2 => rfl
  case isFalse direct =>
    rw [if_neg direct]
    obtain ⟨outcome, found, rfl⟩ := map_eq_some_iff.mp answered
    rw [resolveRanges_more found wider]
    rfl

theorem contentIds_more
    (answered : archive.contentIds hashing fuel store root start stop given = some answer)
    (wider : fuel ≤ more) :
    archive.contentIds hashing more store root start stop given = some answer := by
  rw [contentIds] at answered ⊢
  split at answered
  case h_1 => exact answered
  case h_2 =>
    obtain ⟨outcome, found, rfl⟩ := map_eq_some_iff.mp answered
    rw [contentIdsMany_more found wider]
    rfl

theorem rewrite_more [DecidableEq Raw]
    (answered : archive.rewrite hashing objects store fuel root values before = some ending)
    (wider : fuel ≤ more) :
    archive.rewrite hashing objects store more root values before = some ending := by
  rw [rewrite] at answered ⊢
  split at answered
  case h_1 => exact answered
  case h_2 =>
    split at answered
    case h_1 => cases answered
    all_goals
      rename_i found
      rw [contentIds_more found wider]
      exact answered

section

variable (collisionFree : hashing.CollisionFree) (storeSound : StoreSound hashing store)
include collisionFree storeSound

theorem resolve_spec (sound : PreparedSound archive hashing store before)
    (owned : ∀ root ∈ roots, archive.Owns hashing root)
    (holds : List.Forall₂ (Holds (knownIn store before)) roots contents)
    (readable : includeContent = true → Readable (knownIn store before)
      { before with owner := some archive.owner } store) :
    ∃ enough, ∀ fuel source, enough ≤ fuel → source = none ∨ source = some store →
      (source = none ∧ archive.resolveRanges hashing fuel source roots before includeContent =
        some (.ok none)) ∨
      ∃ ranges, archive.resolveRanges hashing fuel source roots before includeContent =
          some (.ok (some ranges)) ∧ Resolves hashing (knownIn store before) includeContent contents
          { before with owner := some archive.owner } ranges :=
  resolveRanges_spec (bind_eq_bound sound.owner) owned holds
    ((bound_grew sound).sound.sources collisionFree storeSound) readable

theorem contentIdsMany_spec (sound : PreparedSound archive hashing store (given.getD {}))
    (owned : ∀ root ∈ roots, archive.Owns hashing root)
    (holds : List.Forall₂ (Holds (knownIn store (given.getD {}))) roots contents) :
    ∃ enough, ∀ fuel, enough ≤ fuel → ∃ last,
      archive.contentIdsMany hashing fuel store roots given = some (.ok (contents, last)) ∧
        Grew archive hashing store (given.getD {}) last ∧
          knownIn store last = knownIn store (given.getD {}) := by
  have unread : false = true → Readable (knownIn store (given.getD {}))
      { given.getD {} with owner := some archive.owner } store := nofun
  obtain ⟨enough, resolved⟩ := resolve_spec collisionFree storeSound sound owned holds unread
  refine ⟨enough, fun fuel fueled => ?_⟩
  have grown : ∀ ranges, Resolves hashing (knownIn store (given.getD {})) false contents
      { given.getD {} with owner := some archive.owner } ranges →
        Grew archive hashing store (given.getD {}) ranges.prepared ∧
          knownIn store ranges.prepared = knownIn store (given.getD {}) := by
    intro ranges resolves
    have bound := bound_grew sound
    have learnt := resolves.refreshed.grew bound.sound
    exact ⟨bound.trans learnt.1, learnt.2⟩
  obtain ⟨ranges, answered, resolves⟩ : ∃ ranges, archive.resolveRanges hashing fuel (some store)
      roots (given.getD {}) false = some (.ok (some ranges)) ∧
        Resolves hashing (knownIn store (given.getD {})) false contents
          { given.getD {} with owner := some archive.owner } ranges := by
    cases resolved fuel (some store) fueled (.inr rfl) with
    | inl undecided => cases undecided.1
    | inr decided => exact decided
  rw [contentIdsMany]
  split
  case isFalse =>
    dsimp only
    rw [answered]
    refine ⟨ranges.prepared, ?_, grown ranges resolves⟩
    rw [← resolves.groups]
    rfl
  case isTrue =>
    dsimp only
    cases resolved fuel none fueled (.inl rfl) with
    | inl undecided =>
      rw [undecided.2]
      dsimp only
      rw [answered]
      refine ⟨ranges.prepared, ?_, grown ranges resolves⟩
      rw [← resolves.groups]
      rfl
    | inr decided =>
      obtain ⟨early, earlyAnswer, earlyResolves⟩ := decided
      rw [earlyAnswer]
      refine ⟨early.prepared, ?_, grown early earlyResolves⟩
      rw [← earlyResolves.groups]
      rfl

section

variable {given : Option (PreparedArchive Digest Payload)}
  (sound : PreparedSound archive hashing store (given.getD {}))
  (owned : archive.Owns hashing root) (holds : Holds (knownIn store (given.getD {})) root ids)
include sound owned holds

theorem contentIds_spec {start : Nat} {stop : Option Nat}
    (ordered : start ≤ stop.getD root.count) (within : stop.getD root.count ≤ root.count) :
    ∃ enough, ∀ fuel, enough ≤ fuel → ∃ last,
      archive.contentIds hashing fuel store root start stop given =
          some (.ok ((ids.take (stop.getD root.count)).drop start, last)) ∧
        Grew archive hashing store (given.getD {}) last ∧
          knownIn store last = knownIn store (given.getD {}) := by
  obtain ⟨part, part_eq, scope, contentScope, partHolds⟩ := holds.slice ordered within
  have partOwned : ∀ other ∈ [part], archive.Owns hashing other := by
    intro other member
    rw [List.mem_singleton.mp member]
    exact ⟨scope.trans owned.1, contentScope.trans owned.2⟩
  obtain ⟨enough, read⟩ := contentIdsMany_spec collisionFree storeSound sound partOwned
    (.cons partHolds .nil)
  refine ⟨enough, fun fuel fueled => ?_⟩
  obtain ⟨last, answered, grew⟩ := read fuel fueled
  refine ⟨last, ?_, grew⟩
  rw [contentIds, part_eq]
  dsimp only
  rw [answered]
  rfl

theorem contentIds_whole :
    ∃ enough, ∀ fuel, enough ≤ fuel → ∃ last,
      archive.contentIds hashing fuel store root 0 none given = some (.ok (ids, last)) ∧
        Grew archive hashing store (given.getD {}) last ∧
          knownIn store last = knownIn store (given.getD {}) := by
  obtain ⟨enough, read⟩ := @contentIds_spec _ _ _ _ _ _ _ _ _ collisionFree storeSound given sound
    owned holds 0 none (Nat.zero_le _) (le_refl _)
  refine ⟨enough, fun fuel fueled => ?_⟩
  obtain ⟨last, answered, grew⟩ := read fuel fueled
  rw [getD_none, List.drop_zero, List.take_of_length_le (le_of_eq holds.length)]
    at answered
  exact ⟨last, answered, grew⟩

end

theorem rewrite_spec [DecidableEq Raw] (sound : PreparedSound archive hashing store before)
    (owned : archive.Owns hashing root) (holds : Holds (knownIn store before) root ids)
    (values : List (String × Raw)) : ∃ enough, ∀ fuel, enough ≤ fuel → ∃ outcome last,
      archive.rewrite hashing objects store fuel root values before = some (outcome, last) ∧
        Grew archive hashing store before last ∧
        (hashing.ReadsBack objects → (∀ value ∈ values, value.1 ≠ "") →
          ∃ result, outcome = .ok result) ∧
        ∀ result, outcome = .ok result → archive.Owns hashing result ∧
          Holds (knownIn store last) result (values.map hashing.valueIdentity) := by
  have bound := bound_grew sound
  have given : PreparedSound archive hashing store
      ((some { before with owner := some archive.owner }).getD {}) := bound.sound
  obtain ⟨enough, read⟩ := contentIds_whole collisionFree storeSound given owned holds
  refine ⟨enough, fun fuel fueled => ?_⟩
  obtain ⟨resolved, answered, grew, known⟩ := read fuel fueled
  have rewritten := @rewriteFrom_ensures _ _ _ _ _ _ _ _ _ values objects collisionFree storeSound
    root ids grew.sound (holds.mono (bound.trans grew).within)
  rw [rewrite, bind_eq_bound sound.owner]
  dsimp only
  rw [answered]
  refine ⟨_, _, rfl, (bound.trans grew).trans rewritten.kept, ?_, ?_⟩
  · exact fun readsBack named => rewritten.returns ⟨readsBack, named⟩
  · exact fun result same => rewritten.post result same

end

end ContentArchive

/-! A publication: it stores what was prepared or nothing, and it stores nothing that names
what is not stored. -/

variable {stored : ArchiveStore Digest Payload}

structure Extends (store stored : ArchiveStore Digest Payload) : Prop where
  sequences : Within (storedIn store) (storedIn stored)
  contents : ∀ identity content, store.contents.lookup identity = some content →
    stored.contents.lookup identity = some content

theorem Extends.refl : Extends store store := ⟨.refl, fun _ _ found => found⟩

theorem Extends.trans (first : Extends store stored) (second : Extends stored last) :
    Extends store last :=
  ⟨first.sequences.trans second.sequences,
    fun identity content found => second.contents _ _ (first.contents identity content found)⟩

section

variable (extended : Extends store stored)
include extended

theorem Extends.isSome_sequence (present : (store.sequences.lookup identity).isSome = true) :
    (stored.sequences.lookup identity).isSome = true := by
  obtain ⟨node, found⟩ := isSome_iff_exists.mp present
  exact isSome_iff_exists.mpr ⟨node, extended.sequences identity node found⟩

theorem Extends.isSome_content (present : (store.contents.lookup identity).isSome = true) :
    (stored.contents.lookup identity).isSome = true := by
  obtain ⟨content, found⟩ := isSome_iff_exists.mp present
  exact isSome_iff_exists.mpr ⟨content, extended.contents identity content found⟩

theorem Extends.knownIn :
    Within (knownIn store before) (knownIn stored before) := by
  intro identity node found
  rw [Archive.knownIn, or_eq_some_iff] at found ⊢
  exact found.imp id fun later => ⟨later.1, extended.sequences identity node later.2⟩

end

theorem PreparedSound.extend (collisionFree : hashing.CollisionFree)
    (sound : PreparedSound archive hashing store before) (storedSound : StoreSound hashing stored)
    (extended : Extends store stored) : PreparedSound archive hashing stored before := by
  have addressed : Addressed hashing (knownIn stored before) := by
    intro identity node found
    rw [knownIn, or_eq_some_iff] at found
    cases found with
    | inl remembered =>
      apply sound.addressed
      rw [knownIn, remembered, some_or]
    | inr there => exact storedSound.addressed identity node there.2
  have within : Within (storedIn stored) (knownIn stored before) := by
    intro identity node found
    cases known : before.nodes.lookup identity with
    | none =>
      rw [knownIn, known, none_or]
      exact found
    | some other =>
      have here : knownIn stored before identity = some other := by
        rw [knownIn, known, some_or]
      have same : other = node := by
        apply collisionFree.node
        rw [addressed _ _ here, storedSound.addressed _ _ found]
      rw [here, same]
  refine ⟨sound.owner, addressed, ?_, sound.recorded, ?_, sound.genuine, sound.observed⟩
  · intro identity node found
    rw [knownIn, or_eq_some_iff] at found
    cases found with
    | inl remembered =>
      obtain ⟨forest, skew, located⟩ := sound.wellFormed identity node (by
        rw [knownIn, remembered, some_or])
      exact ⟨forest, skew, located.mono extended.knownIn⟩
    | inr there =>
      obtain ⟨forest, skew, located⟩ := storedSound.wellFormed identity node there.2
      exact ⟨forest, skew, located.mono within⟩
  · intro identity node found
    exact (sound.published identity node found).imp id (extended.sequences identity node)

namespace ContentArchive

variable [DecidableEq Payload]

/-- The result of a publication that commits: every requirement was met. -/
structure Publishes (store : ArchiveStore Digest Payload)
    (prepared : PreparedArchive Digest Payload) (stored : ArchiveStore Digest Payload) : Prop where
  named : ∀ identity node, prepared.sequences.lookup identity = some node → ∃ known,
    prepared.nodes.lookup identity = some known ∧
      ((prepared.contents.lookup known.contentId).isSome = true ∨
        (store.contents.lookup known.contentId).isSome = true) ∧
      ∀ other ∈ known.left.toList ++ known.right.toList ++ known.nextForest.toList,
        (prepared.sequences.lookup other).isSome = true ∨
          (store.sequences.lookup other).isSome = true
  sequencesAgree : ¬Conflicts prepared.sequences store.sequences
  contentsAgree : ¬Conflicts prepared.contents store.contents
  stored : stored = ⟨store.sequences ∪ prepared.sequences, store.contents ∪ prepared.contents⟩

omit [DecidableEq Payload] in
theorem isSome_of_neither {ν : Type} {first second : Option ν}
    (present : ¬(first = none ∧ second = none)) : first.isSome = true ∨ second.isSome = true := by
  cases first with
  | some _ => exact .inl rfl
  | none =>
    cases second with
    | some _ => exact .inr rfl
    | none => exact absurd ⟨rfl, rfl⟩ present

theorem publish_eq_ok (owner : before.owner = none ∨ before.owner = some archive.owner)
    (published : (archive.publish store before).1 = .ok stored) :
    Publishes store before stored := by
  have bound : archive.bind { before with observed := ∅ } = _ := bind_eq_bound owner
  rw [publish] at published
  dsimp only at published
  rw [bound] at published
  obtain ⟨dependencies, listed, published⟩ := bind_eq_ok.mp published
  obtain ⟨nodes, nodes_eq, listed⟩ := bind_eq_ok.mp listed
  cases listed
  obtain ⟨_, complete, published⟩ := bind_eq_ok.mp published
  obtain ⟨_, agrees, published⟩ := bind_eq_ok.mp published
  have complete := not_or.mp (refuse_eq_ok.mp complete)
  have agrees := not_or.mp (refuse_eq_ok.mp agrees)
  cases published
  refine ⟨?_, agrees.1, agrees.2, rfl⟩
  intro identity node found
  obtain ⟨known, member, here⟩ :=
    exists_related (mapM_eq_ok.mp nodes_eq) (Table.mem_items.mpr found)
  have found := orRaise_eq_ok.mp here
  refine ⟨known, found, ?_, ?_⟩
  · apply isSome_of_neither
    exact fun absent => complete.1 ⟨_, List.mem_map_of_mem member, absent⟩
  · intro other named
    apply isSome_of_neither
    exact fun absent => complete.2 ⟨other, List.mem_flatMap.mpr ⟨known, member, named⟩, absent⟩

omit [DecidableEq Payload] in
theorem Publishes.extended (published : Publishes store before stored) : Extends store stored := by
  rw [published.stored]
  constructor
  · intro identity node found
    rw [storedIn, Table.lookup_union]
    rw [storedIn] at found
    rw [found, some_or]
  · intro identity content found
    rw [Table.lookup_union, found, some_or]

omit [DecidableEq Payload] in
theorem Publishes.known (sound : PreparedSound archive hashing store before)
    (published : Publishes store before stored) :
    Within (knownIn store before) (storedIn stored) := by
  intro identity node found
  rw [knownIn, or_eq_some_iff] at found
  have split : before.sequences.lookup identity = some node ∨
      store.sequences.lookup identity = some node := by
    cases found with
    | inl remembered => exact sound.published identity node remembered
    | inr there => exact .inr there.2
  cases split with
  | inr there => exact published.extended.sequences identity node there
  | inl prepared =>
    rw [published.stored, storedIn, Table.lookup_union, prepared]
    cases there : store.sequences.lookup identity with
    | none => rfl
    | some other =>
      have same : other = node := by
        by_contra different
        exact published.sequencesAgree
          ⟨(identity, node), Table.mem_items.mpr prepared, other, there, different⟩
      rw [some_or, same]

omit [DecidableEq Payload] in
theorem Publishes.sound (storeSound : StoreSound hashing store)
    (sound : PreparedSound archive hashing store before)
    (published : Publishes store before stored) : StoreSound hashing stored := by
  have known := published.known sound
  have extended := published.extended
  have origin : ∀ identity node, stored.sequences.lookup identity = some node →
      store.sequences.lookup identity = some node ∨
        before.sequences.lookup identity = some node := by
    intro identity node found
    rw [published.stored, Table.lookup_union, or_eq_some_iff] at found
    exact found.imp id And.right
  have remembered : ∀ identity node, before.sequences.lookup identity = some node →
      knownIn store before identity = some node := by
    intro identity node prepared
    have here := sound.recorded identity node prepared
    dsimp only at here
    rw [knownIn, here, some_or]
  refine ⟨?_, ?_, ?_, ?_⟩
  · intro identity node found
    cases origin identity node found with
    | inl there => exact storeSound.addressed identity node there
    | inr prepared => exact sound.addressed identity node (remembered identity node prepared)
  · intro identity content found
    rw [published.stored, Table.lookup_union, or_eq_some_iff] at found
    cases found with
    | inl there => exact storeSound.genuine identity content there
    | inr prepared => exact sound.genuine identity content prepared.2
  · intro identity node found
    cases origin identity node found with
    | inl there =>
      obtain ⟨forest, skew, located⟩ := storeSound.wellFormed identity node there
      exact ⟨forest, skew, located.mono extended.sequences⟩
    | inr prepared =>
      obtain ⟨forest, skew, located⟩ :=
        sound.wellFormed identity node (remembered identity node prepared)
      exact ⟨forest, skew, located.mono known⟩
  · intro identity node found
    cases origin identity node found with
    | inl there =>
      obtain ⟨content, others⟩ := storeSound.closed identity node there
      exact ⟨extended.isSome_content content,
        fun other named => extended.isSome_sequence (others other named)⟩
    | inr prepared =>
      obtain ⟨same, found_same, content, others⟩ := published.named identity node prepared
      have here := sound.recorded identity node prepared
      dsimp only at here
      rw [found_same, some.injEq] at here
      subst here
      constructor
      · rw [published.stored, Table.lookup_union, isSome_or, Bool.or_eq_true]
        exact content.symm
      · intro other named
        rw [published.stored, Table.lookup_union, isSome_or, Bool.or_eq_true]
        exact (others other named).symm

theorem publish_grew (sound : PreparedSound archive hashing store before) :
    Grew archive hashing store before (archive.publish store before).2 := by
  have bound : archive.bind { before with observed := ∅ } = _ := bind_eq_bound sound.owner
  rw [publish]
  dsimp only
  rw [bound]
  exact sound.sameNodes (.inr rfl) rfl rfl sound.genuine nofun

theorem publish_raises (owner : before.owner = none ∨ before.owner = some archive.owner)
    (conflict : Conflicts before.sequences store.sequences ∨
      Conflicts before.contents store.contents) :
    ∃ error, (archive.publish store before).1 = .error error := by
  cases outcome : (archive.publish store before).1 with
  | error error => exact ⟨error, rfl⟩
  | ok stored =>
    have published := publish_eq_ok owner outcome
    exact absurd conflict (not_or.mpr ⟨published.sequencesAgree, published.contentsAgree⟩)

end ContentArchive

end Linktools.Archive

namespace Linktools.Archive

open Linktools.Core Library ContentArchive

variable {Digest Raw Payload : Type} [DecidableEq Digest] {archive : ContentArchive}
  {hashing : Hashing Digest Raw Payload} {store : ArchiveStore Digest Payload}
  {root : ArchiveRoot Digest}

open Classical in
noncomputable def everyNode (hashing : Hashing Digest Raw Payload) : Known Digest :=
  fun identity =>
    if made : ∃ node, hashing.hashNode node = identity then some made.choose else none

def KnownTo (store : ArchiveStore Digest Payload) (prepared : PreparedArchive Digest Payload)
    (root : ArchiveRoot Digest) : Prop :=
  ∀ slice ∈ root.slices, (knownIn store prepared slice.first).isSome = true

omit [DecidableEq Digest] in
theorem within_everyNode (collisionFree : hashing.CollisionFree)
    (addressed : Addressed hashing known) : Within known (everyNode hashing) := by
  intro identity node found
  have made : ∃ node, hashing.hashNode node = identity := ⟨node, addressed identity node found⟩
  rw [everyNode, dif_pos made, Option.some.injEq]
  apply collisionFree.node
  rw [made.choose_spec, addressed identity node found]

theorem Holds.knownTo (holds : Holds (knownIn store before) root contents) :
    KnownTo store before root := by
  obtain ⟨parts, slices, _⟩ := holds
  intro slice member
  obtain ⟨part, _, forest, stores, _⟩ := exists_related slices member
  cases forest with
  | nil => cases stores.located
  | cons =>
    obtain ⟨named, _, node, found, _⟩ := stores.located
    rw [Option.some.injEq] at named
    rw [named, found]
    rfl

theorem Holds.locate (collisionFree : hashing.CollisionFree)
    (sound : PreparedSound archive hashing store before)
    (stands : Holds (everyNode hashing) root contents) (known : KnownTo store before root) :
    Holds (knownIn store before) root contents := by
  have within := within_everyNode collisionFree sound.addressed
  obtain ⟨parts, slices, rfl⟩ := stands
  refine ⟨parts, ?_, rfl⟩
  rw [KnownTo] at known
  generalize root.slices = all at slices known
  induction slices with
  | nil => exact .nil
  | @cons slice part _ _ here _ ih =>
    refine .cons ?_ (ih fun other member => known other (List.mem_cons_of_mem _ member))
    obtain ⟨forest, stores, part_eq⟩ := here
    obtain ⟨node, found⟩ := Option.isSome_iff_exists.mp (known slice List.mem_cons_self)
    obtain ⟨own, skew, located⟩ := sound.wellFormed _ _ found
    have same := (located.mono within).unique stores.located
    subst same
    exact ⟨own, ⟨skew, located, stores.counted⟩, part_eq⟩

structure ArchiveState (Digest Payload : Type) where
  store : ArchiveStore Digest Payload
  prepareds : Nat → PreparedArchive Digest Payload
  roots : List (ArchiveRoot Digest)

namespace ArchiveState

variable (state : ArchiveState Digest Payload)

/-- A call has ended with a preparation and, when it did not raise, with a root. -/
def settle (index : Nat)
    (ending : Except Raised (ArchiveRoot Digest) × PreparedArchive Digest Payload) :
    ArchiveState Digest Payload :=
  { state with
    prepareds := Function.update state.prepareds index ending.2
    roots := ending.1.toOption.toList ++ state.roots }

/-- A call names a root that some call has returned, and a preparation that finds it. -/
structure Names (index : Nat) (root : ArchiveRoot Digest) : Prop where
  returned : root ∈ state.roots
  known : KnownTo state.store (state.prepareds index) root

end ArchiveState

/-- The calls on archives of one scope, each with an object store or without. -/
inductive ArchiveCall (Digest Raw : Type)
  | append (index : Nat) (root : ArchiveRoot Digest) (contents : List Digest)
  | prepareAppend (index : Nat) (objects : Bool) (root : ArchiveRoot Digest)
      (values : List (String × Raw))
  | rewrite (index : Nat) (objects : Bool) (root : ArchiveRoot Digest)
      (values : List (String × Raw))
  | slice (root : ArchiveRoot Digest) (start stop : Nat)
  | contentIds (index : Nat) (roots : List (ArchiveRoot Digest))
  | publish (index : Nat)

variable [DecidableEq Raw] [DecidableEq Payload]

inductive ArchiveStep (archive : ContentArchive) (hashing : Hashing Digest Raw Payload)
    (state : ArchiveState Digest Payload) :
    ArchiveCall Digest Raw → ArchiveState Digest Payload → Prop
  | append {index : Nat} {root : ArchiveRoot Digest} {contents : List Digest}
      (names : state.Names index root) :
      ArchiveStep archive hashing state (.append index root contents)
        (state.settle index (Action.runOn
          (archive.append hashing state.store root contents) (state.prepareds index)))
  | prepareAppend {index : Nat} {objects : Bool} {root : ArchiveRoot Digest}
      {values : List (String × Raw)} (names : state.Names index root) :
      ArchiveStep archive hashing state (.prepareAppend index objects root values)
        (state.settle index (Action.runOn
          (archive.prepareAppend hashing objects state.store root values) (state.prepareds index)))
  | rewrite {index fuel : Nat} {objects : Bool} {root : ArchiveRoot Digest}
      {values : List (String × Raw)}
      {ending : Except Raised (ArchiveRoot Digest) × PreparedArchive Digest Payload}
      (names : state.Names index root)
      (ended : archive.rewrite hashing objects state.store fuel root values
        (state.prepareds index) = some ending) :
      ArchiveStep archive hashing state (.rewrite index objects root values)
        (state.settle index ending)
  | slice {root part : ArchiveRoot Digest} {start stop : Nat} (returned : root ∈ state.roots)
      (cut : root.slice start stop = .ok part) :
      ArchiveStep archive hashing state (.slice root start stop)
        { state with roots := part :: state.roots }
  | contentIds {index fuel : Nat} {roots : List (ArchiveRoot Digest)}
      {contents : List (List Digest)} {last : PreparedArchive Digest Payload}
      (names : ∀ root ∈ roots, state.Names index root)
      (read : archive.contentIdsMany hashing fuel state.store roots
        (some (state.prepareds index)) = some (.ok (contents, last))) :
      ArchiveStep archive hashing state (.contentIds index roots)
        { state with prepareds := Function.update state.prepareds index last }
  | publish {index : Nat} : ArchiveStep archive hashing state (.publish index)
        { state with
          store := ((archive.publish state.store (state.prepareds index)).1.toOption).getD
            state.store
          prepareds := Function.update state.prepareds index
            (archive.publish state.store (state.prepareds index)).2 }

def archiveMachine (archive : ContentArchive) (hashing : Hashing Digest Raw Payload) :
    Machine (ArchiveState Digest Payload) (ArchiveCall Digest Raw) where
  initial state := state = ⟨⟨∅, ∅⟩, fun _ => {}, [archive.emptyRoot hashing]⟩
  step state call next := ArchiveStep archive hashing state call next

structure ArchiveSound (archive : ContentArchive) (hashing : Hashing Digest Raw Payload)
    (state : ArchiveState Digest Payload) : Prop where
  store : StoreSound hashing state.store
  prepareds : ∀ index, PreparedSound archive hashing state.store (state.prepareds index)
  roots : ∀ root ∈ state.roots, archive.Owns hashing root ∧
    ∃ contents, Holds (everyNode hashing) root contents

variable {state next : ArchiveState Digest Payload} {index : Nat}
  {call : ArchiveCall Digest Raw}

omit [DecidableEq Raw] [DecidableEq Payload] in
theorem ArchiveSound.named (collisionFree : hashing.CollisionFree)
    (sound : ArchiveSound archive hashing state) (names : state.Names index root) :
    archive.Owns hashing root ∧
      ∃ contents, Holds (knownIn state.store (state.prepareds index)) root contents := by
  obtain ⟨owned, contents, stands⟩ := sound.roots root names.returned
  exact ⟨owned, contents, stands.locate collisionFree (sound.prepareds index) names.known⟩

omit [DecidableEq Raw] [DecidableEq Payload] in
theorem ArchiveSound.all_hold (collisionFree : hashing.CollisionFree)
    (sound : ArchiveSound archive hashing state) {roots : List (ArchiveRoot Digest)}
    (names : ∀ root ∈ roots, state.Names index root) :
    ∃ contents, List.Forall₂ (Holds (knownIn state.store (state.prepareds index))) roots
      contents := by
  induction roots with
  | nil => exact ⟨[], .nil⟩
  | cons root rest ih =>
    obtain ⟨_, own, holds⟩ := sound.named collisionFree (names root List.mem_cons_self)
    obtain ⟨contents, later⟩ := ih fun other member => names other (List.mem_cons_of_mem _ member)
    exact ⟨own :: contents, .cons holds later⟩

omit [DecidableEq Raw] [DecidableEq Payload] in
theorem ArchiveSound.update (sound : ArchiveSound archive hashing state)
    (after_sound : PreparedSound archive hashing state.store after) :
    ∀ other, PreparedSound archive hashing state.store
      (Function.update state.prepareds index after other) := by
  intro other
  by_cases here : other = index
  case pos =>
    rw [here, Function.update_self]
    exact after_sound
  case neg =>
    rw [Function.update_of_ne here]
    exact sound.prepareds other

omit [DecidableEq Raw] [DecidableEq Payload] in
theorem ArchiveSound.settle (collisionFree : hashing.CollisionFree)
    (sound : ArchiveSound archive hashing state)
    (grew : Grew archive hashing state.store (state.prepareds index) ending.2)
    (result : ∀ root, ending.1 = .ok root → archive.Owns hashing root ∧
      ∃ contents, Holds (knownIn state.store ending.2) root contents) :
    ArchiveSound archive hashing (state.settle index ending) := by
  refine ⟨sound.store, sound.update grew.sound, ?_⟩
  intro root member
  cases List.mem_append.mp member with
  | inr earlier => exact sound.roots root earlier
  | inl own =>
    rw [Option.mem_toList, toOption_eq_some] at own
    obtain ⟨owned, contents, holds⟩ := result root own
    exact ⟨owned, contents, holds.mono (within_everyNode collisionFree grew.sound.addressed)⟩

theorem archiveStep_sound (collisionFree : hashing.CollisionFree)
    (sound : ArchiveSound archive hashing state)
    (step : ArchiveStep archive hashing state call next) :
    ArchiveSound archive hashing next ∧ Extends state.store next.store := by
  cases step with
  | @append _ _ added names =>
    obtain ⟨owned, contents, holds⟩ := sound.named collisionFree names
    have appended := @append_ensures _ _ _ _ _ _ _ _ collisionFree sound.store
      (sound.prepareds _) _ contents added owned holds
    refine ⟨sound.settle collisionFree appended.kept fun result ok => ?_, .refl⟩
    have post := appended.post result ok
    exact ⟨post.1, _, post.2.2⟩
  | @prepareAppend _ objects _ values names =>
    obtain ⟨owned, contents, holds⟩ := sound.named collisionFree names
    have appended := @prepareAppend_ensures _ _ _ _ _ _ _ _ _ values objects collisionFree
      sound.store (sound.prepareds _) _ contents owned holds
    refine ⟨sound.settle collisionFree appended.kept fun result ok => ?_, .refl⟩
    have post := appended.post result ok
    exact ⟨post.1, _, post.2.2⟩
  | @rewrite _ fuel _ _ values ending names ended =>
    obtain ⟨owned, contents, holds⟩ := sound.named collisionFree names
    obtain ⟨enough, rewritten⟩ := rewrite_spec collisionFree sound.store (sound.prepareds _)
      owned holds values
    obtain ⟨outcome, after, same, grew, _, post⟩ :=
      rewritten (max enough fuel) (le_max_left _ _)
    rw [rewrite_more ended (le_max_right _ _), Option.some.injEq] at same
    subst same
    refine ⟨sound.settle collisionFree grew fun result ok => ?_, .refl⟩
    exact ⟨(post result ok).1, _, (post result ok).2⟩
  | @slice root part start stop returned cut =>
    refine ⟨⟨sound.store, sound.prepareds, ?_⟩, .refl⟩
    intro other member
    cases List.mem_cons.mp member with
    | inr earlier => exact sound.roots other earlier
    | inl own =>
      subst own
      obtain ⟨owned, contents, stands⟩ := sound.roots root returned
      have ranged : start ≤ stop ∧ stop ≤ root.count := by
        by_contra outside
        rw [ArchiveRoot.slice, if_neg outside] at cut
        cases cut
      obtain ⟨same, same_eq, scope, contentScope, holds⟩ := stands.slice ranged.1 ranged.2
      rw [cut, Except.ok.injEq] at same_eq
      subst same_eq
      exact ⟨⟨scope.trans owned.1, contentScope.trans owned.2⟩, _, holds⟩
  | @contentIds index fuel roots contents after names read =>
    obtain ⟨all, holds⟩ : ∃ all, List.Forall₂
        (Holds (knownIn state.store (state.prepareds index))) roots all :=
      sound.all_hold collisionFree names
    have owned : ∀ root ∈ roots, archive.Owns hashing root :=
      fun root member => (sound.named collisionFree (names root member)).1
    have given : PreparedSound archive hashing state.store
        ((some (state.prepareds index)).getD {}) := sound.prepareds index
    obtain ⟨enough, resolved⟩ := contentIdsMany_spec collisionFree sound.store given owned holds
    obtain ⟨same, answer, grew, _⟩ := resolved (max enough fuel) (le_max_left _ _)
    rw [contentIdsMany_more read (le_max_right _ _), Option.some.injEq, Except.ok.injEq,
      Prod.mk.injEq] at answer
    rw [← answer.2] at grew
    exact ⟨⟨sound.store, sound.update grew.sound, sound.roots⟩, .refl⟩
  | @publish index =>
    have grew := publish_grew (sound.prepareds index)
    cases outcome : (archive.publish state.store (state.prepareds index)).1 with
    | error error => exact ⟨⟨sound.store, sound.update grew.sound, sound.roots⟩, .refl⟩
    | ok stored =>
      have published := publish_eq_ok (sound.prepareds index).owner outcome
      have storedSound := published.sound sound.store (sound.prepareds index)
      refine ⟨⟨storedSound, ?_, sound.roots⟩, published.extended⟩
      intro other
      exact (sound.update grew.sound other).extend collisionFree storedSound published.extended

end Linktools.Archive
