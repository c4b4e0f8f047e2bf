import Linktools.Archive.Records

namespace Linktools.Archive

open Linktools.Core Library Library.SkewForest List

/-! What known sequence nodes stand for.  A node heads a tree of items, and together with
the trees after it a forest; an item carries the identity of its node and its content. -/

variable {Digest : Type}

abbrev Known (Digest : Type) := Digest → Option (ImmutableSequenceNode Digest)

abbrev Item (Digest : Type) := Digest × Digest

variable {known wider : Known Digest} {span : ArchiveSlice Digest}
  {tree newer older : SkewTree (Item Digest)} {forest : List (SkewTree (Item Digest))}

/-- A node stands for the item on top of its tree.  The tree after it is left open, for a
node that became a child keeps the one it was made with. -/
def TreeAt (known : Known Digest) : SkewTree (Item Digest) → Prop
  | .leaf own => ∃ node, known own.1 = some node ∧ node.contentId = own.2 ∧ node.treeCount = 1
  | .branch own newer older =>
    (∃ node, known own.1 = some node ∧ node.contentId = own.2 ∧
      node.treeCount = newer.size + older.size + 1 ∧
      node.left = some newer.own.1 ∧ node.right = some older.own.1) ∧
    TreeAt known newer ∧ TreeAt known older

def ForestAt (known : Known Digest) : List (SkewTree (Item Digest)) → Option Digest → Prop
  | [], first => first = none
  | tree :: rest, first =>
    first = some tree.own.1 ∧ TreeAt known tree ∧
      ∃ node, known tree.own.1 = some node ∧ ForestAt known rest node.nextForest

def WellFormed (known : Known Digest) : Prop :=
  ∀ identity node, known identity = some node →
    ∃ forest, Skew forest ∧ ForestAt known forest (some identity)

def Within (known wider : Known Digest) : Prop :=
  ∀ identity node, known identity = some node → wider identity = some node

def ChainWeights (known : Known Digest) : List Nat → Option Digest → Prop
  | [], first => first = none
  | weight :: rest, first =>
    ∃ identity node, first = some identity ∧ known identity = some node ∧
      node.treeCount = weight ∧ ChainWeights known rest node.nextForest

def contentsOf (forest : List (SkewTree (Item Digest))) : List Digest :=
  ((items forest).map Prod.snd).reverse

structure Stores (known : Known Digest) (slice : ArchiveSlice Digest)
    (forest : List (SkewTree (Item Digest))) : Prop where
  skew : Skew forest
  located : ForestAt known forest (some slice.first)
  counted : SkewForest.size forest = slice.count

def SliceHolds (known : Known Digest) (slice : ArchiveSlice Digest) (part : List Digest) : Prop :=
  ∃ forest, Stores known slice forest ∧
    part = ((contentsOf forest).take slice.stop).drop slice.start

def Holds (known : Known Digest) (root : ArchiveRoot Digest) (contents : List Digest) : Prop :=
  ∃ parts, List.Forall₂ (SliceHolds known) root.slices parts ∧ contents = parts.flatten

theorem TreeAt.own_known (located : TreeAt known tree) :
    ∃ node, known tree.own.1 = some node ∧ node.contentId = tree.own.2 ∧
      node.treeCount = tree.size := by
  cases tree with
  | leaf own => exact located
  | branch =>
    obtain ⟨⟨node, found, content, count, _⟩, _⟩ := located
    exact ⟨node, found, content, count⟩

theorem TreeAt.mono (located : TreeAt known tree) (within : Within known wider) :
    TreeAt wider tree := by
  induction tree with
  | leaf own =>
    obtain ⟨node, found, rest⟩ := located
    exact ⟨node, within _ _ found, rest⟩
  | branch own newer older newerMono olderMono =>
    obtain ⟨⟨node, found, rest⟩, newerAt, olderAt⟩ := located
    exact ⟨⟨node, within _ _ found, rest⟩, newerMono newerAt, olderMono olderAt⟩

variable {first : Option Digest}

theorem ForestAt.mono (located : ForestAt known forest first)
    (within : Within known wider) : ForestAt wider forest first := by
  induction forest generalizing first with
  | nil => exact located
  | cons tree rest ih =>
    obtain ⟨named, treeAt, node, found, further⟩ := located
    exact ⟨named, treeAt.mono within, node, within _ _ found, ih further⟩

variable {part : List Digest}

theorem SliceHolds.mono (holds : SliceHolds known span part)
    (within : Within known wider) : SliceHolds wider span part := by
  obtain ⟨forest, stores, contents⟩ := holds
  exact ⟨forest, ⟨stores.skew, stores.located.mono within, stores.counted⟩, contents⟩

variable {root : ArchiveRoot Digest} {contents : List Digest}

theorem Holds.mono (holds : Holds known root contents) (within : Within known wider) :
    Holds wider root contents := by
  obtain ⟨parts, slices, contents⟩ := holds
  exact ⟨parts, slices.imp fun _ _ held => held.mono within, contents⟩

theorem Within.refl : Within known known := fun _ _ found => found

theorem Within.trans (first : Within known wider) (second : Within wider widest) :
    Within known widest :=
  fun identity node found => second identity node (first identity node found)

theorem ForestAt.chainWeights (located : ForestAt known forest first) :
    ChainWeights known (forest.map SkewTree.size) first := by
  induction forest generalizing first with
  | nil => exact located
  | cons tree rest ih =>
    obtain ⟨named, treeAt, node, found, further⟩ := located
    obtain ⟨same, foundSame, _, count⟩ := treeAt.own_known
    rw [found, Option.some.injEq] at foundSame
    exact ⟨tree.own.1, node, named, found, foundSame ▸ count, ih further⟩

theorem length_contentsOf : (contentsOf forest).length = SkewForest.size forest := by
  rw [contentsOf, length_reverse, length_map, size_eq_length]

theorem contentsOf_push : contentsOf (push item forest) = contentsOf forest ++ [item.2] := by
  rw [contentsOf, items_push, map_cons, reverse_cons, contentsOf]

theorem SliceHolds.length (holds : SliceHolds known span part) : part.length = span.size := by
  obtain ⟨forest, stores, contents⟩ := holds
  have within := span.ordered
  rw [contents, length_drop, length_take, length_contentsOf, stores.counted,
    min_eq_left within.2, ArchiveSlice.size]

theorem Holds.length (holds : Holds known root contents) : contents.length = root.count := by
  obtain ⟨parts, slices, rfl⟩ := holds
  rw [ArchiveRoot.count, length_flatten]
  generalize root.slices = all at slices
  induction slices with
  | nil => rfl
  | cons held _ ih => rw [map_cons, map_cons, sum_cons, sum_cons, ih,
    held.length]

theorem Holds.nil : Holds known ⟨scope, contentScope, []⟩ [] :=
  ⟨[], .nil, rfl⟩

theorem SliceHolds.narrow (holds : SliceHolds known span part) (within : high ≤ span.size)
    (ordered : span.start + low < span.start + high ∧ span.start + high ≤ span.count) :
    SliceHolds known ⟨span.first, span.count, span.start + low, span.start + high, ordered⟩
      ((part.take high).drop low) := by
  obtain ⟨forest, stores, rfl⟩ := holds
  refine ⟨forest, ⟨stores.skew, stores.located, stores.counted⟩, ?_⟩
  have inside : span.start + high ≤ span.stop := by
    have := span.ordered
    rw [ArchiveSlice.size] at within
    omega
  rw [take_drop, drop_drop, take_take, min_eq_left inside]

/-- The loop cuts a range out of the slices, whose parts it leaves in order. -/
theorem sliceLoop_holds (start stop offset : Nat)
    (holds : List.Forall₂ (SliceHolds known) slices parts) :
    ∃ kept, List.Forall₂ (SliceHolds known) (ArchiveRoot.sliceLoop start stop offset slices) kept ∧
      kept.flatten = (parts.flatten.take (stop - offset)).drop (start - offset) := by
  induction holds generalizing offset with
  | nil => exact ⟨[], .nil, by simp⟩
  | @cons slice part rest restParts held _ ih =>
    have length := held.length
    rw [ArchiveSlice.size] at length
    obtain ⟨here, hereHolds, hereContents⟩ : ∃ here, List.Forall₂ (SliceHolds known)
        (if inside : start - offset < min (slice.stop - slice.start) (stop - offset) then
          [(⟨slice.first, slice.count, slice.start + (start - offset),
            slice.start + min (slice.stop - slice.start) (stop - offset), by
              have := slice.ordered
              omega⟩ : ArchiveSlice Digest)] else []) here ∧
        here.flatten = (part.take (stop - offset)).drop (start - offset) := by
      have cut : part.take (stop - offset) =
          part.take (min (slice.stop - slice.start) (stop - offset)) := by
        rw [← length, Nat.min_comm, ← take_eq_take_min]
      split
      case isTrue inside =>
        exact ⟨[_], .cons (held.narrow (Nat.min_le_left _ _) _) .nil,
          by rw [flatten_singleton, cut, ArchiveSlice.size]⟩
      case isFalse outside =>
        refine ⟨[], .nil, ?_⟩
        rw [flatten_nil, eq_comm, drop_eq_nil_iff, cut, length_take]
        omega
    rw [ArchiveRoot.sliceLoop, flatten_cons, take_append, drop_append,
      length_take, length]
    split
    case isTrue passed =>
      have none : stop - offset - (slice.stop - slice.start) = 0 := by omega
      refine ⟨here, hereHolds, ?_⟩
      rw [hereContents, none, take_zero, drop_nil, append_nil]
    case isFalse further =>
      obtain ⟨later, laterHolds, laterContents⟩ := ih (offset + (slice.stop - slice.start))
      refine ⟨here ++ later, rel_append hereHolds laterHolds, ?_⟩
      rw [flatten_append, hereContents, laterContents, Nat.sub_sub, Nat.sub_sub,
        min_eq_right (by omega)]

theorem Holds.slice {root : ArchiveRoot Digest} {start stop : Nat}
    (holds : Holds known root contents) (ordered : start ≤ stop) (within : stop ≤ root.count) :
    ∃ part, root.slice start stop = .ok part ∧ part.scopeId = root.scopeId ∧
      part.contentScope = root.contentScope ∧
      Holds known part ((contents.take stop).drop start) := by
  obtain ⟨parts, slices, rfl⟩ := holds
  obtain ⟨kept, keptHolds, keptContents⟩ := sliceLoop_holds start stop 0 slices
  rw [ArchiveRoot.slice, if_pos ⟨ordered, within⟩]
  exact ⟨_, rfl, rfl, rfl, kept, keptHolds, by rw [keptContents, Nat.sub_zero, Nat.sub_zero]⟩

def appendedNode (contentId : Digest) (firstId : Option Digest)
    (first second : Option (ImmutableSequenceNode Digest)) :
    Except Raised (ImmutableSequenceNode Digest) :=
  match first, second with
  | some first, some second =>
    if first.treeCount = second.treeCount then
      ImmutableSequenceNode.build contentId (1 + first.treeCount + second.treeCount) firstId
        first.nextForest second.nextForest
    else ImmutableSequenceNode.build contentId 1 none none firstId
  | _, _ => ImmutableSequenceNode.build contentId 1 none none firstId

variable {contentId : Digest}

theorem build_leaf :
    ImmutableSequenceNode.build contentId 1 none none nextForest =
      .ok (.leaf contentId nextForest) := by
  rw [ImmutableSequenceNode.build, dif_pos ImmutableSequenceNode.shape_leaf]
  rfl

theorem nodeShape_join {count : Nat} {left right : Digest} (ones : AllOnes count) :
    NodeShape (1 + count + count) (some left) (some right) := by
  have positive := ones.pos
  refine ⟨by omega, ones.join.and_succ, rfl, ?_⟩
  rw [Option.isNone_some, decide_eq_false_iff_not]
  omega

/-- The node of a forest of one more item, whatever else becomes known with it. -/
structure Pushes (known : Known Digest) (contentId : Digest)
    (forest : List (SkewTree (Item Digest)))
    (node : ImmutableSequenceNode Digest) : Prop where
  located : ∀ (wider : Known Digest) (identity : Digest), Within known wider →
    wider identity = some node → ForestAt wider (push (identity, contentId) forest) (some identity)

theorem pushes_leaf (located : ForestAt known forest first)
    (different : ∀ front second rest, forest = front :: second :: rest → front.size ≠ second.size) :
    Pushes known contentId forest (.leaf contentId first) := by
  constructor
  intro wider identity within found
  have single : TreeAt wider (.leaf (identity, contentId)) := ⟨_, found, rfl, rfl⟩
  have further : ForestAt wider forest first := located.mono within
  cases forest with
  | nil => exact ⟨rfl, single, _, found, further⟩
  | cons front rest =>
    cases rest with
    | nil => exact ⟨rfl, single, _, found, further⟩
    | cons second rest =>
      rw [push, if_neg (different front second rest rfl)]
      exact ⟨rfl, single, _, found, further⟩

theorem appendedNode_eq_ok {contentId : Digest} {firstId : Option Digest} (skew : Skew forest)
    (located : ForestAt known forest firstId) :
    ∃ node, appendedNode contentId firstId (firstId.bind known)
        ((firstId.bind known).bind fun first => first.nextForest.bind known) = .ok node ∧
      Pushes known contentId forest node := by
  cases forest with
  | nil =>
    cases located
    exact ⟨_, build_leaf, pushes_leaf rfl fun _ _ _ impossible => nomatch impossible⟩
  | cons front rest =>
    have whole := located
    obtain ⟨rfl, frontAt, first, found, further⟩ := located
    obtain ⟨_, foundSame, _, frontCount⟩ := frontAt.own_known
    rw [found, Option.some.injEq] at foundSame
    subst foundSame
    rw [Option.bind_some, found, Option.bind_some]
    cases rest with
    | nil =>
      cases further_eq : first.nextForest with
      | some other =>
        rw [further_eq] at further
        cases further
      | none => exact ⟨_, build_leaf, pushes_leaf whole fun _ _ _ impossible => nomatch impossible⟩
    | cons second rest =>
      obtain ⟨next, secondAt, secondNode, secondFound, last⟩ := further
      obtain ⟨_, foundSame, _, secondCount⟩ := secondAt.own_known
      rw [secondFound, Option.some.injEq] at foundSame
      subst foundSame
      rw [next, Option.bind_some, secondFound, appendedNode, frontCount, secondCount, next]
      by_cases same : front.size = second.size
      case pos =>
        have frontPerfect := skew.perfect front mem_cons_self
        have joined : NodeShape (1 + front.size + second.size) (some front.own.1)
            (some second.own.1) := same ▸ nodeShape_join frontPerfect.size_succ
        rw [if_pos same, ImmutableSequenceNode.build, dif_pos joined]
        refine ⟨_, rfl, ⟨?_⟩⟩
        intro wider identity within newFound
        rw [push, if_pos same]
        have total : 1 + front.size + second.size = front.size + second.size + 1 := by omega
        exact ⟨rfl, ⟨⟨_, newFound, rfl, total, rfl, rfl⟩, frontAt.mono within,
          secondAt.mono within⟩, _, newFound, last.mono within⟩
      case neg =>
        rw [if_neg same, build_leaf]
        refine ⟨_, rfl, pushes_leaf whole ?_⟩
        intro front' second' rest' split
        cases split
        exact same

/-! The jobs of a resolution over sound spans. A job covers the positions of its tree and, when
it stands for a whole rest of a forest, of the trees after it; a visit hands them on, except its
own and those that no range wants. -/

variable {spans : List (ArchiveSlice Digest)} {forests : List (List (SkewTree (Item Digest)))}
  {job : RangeNode Digest} {node : ImmutableSequenceNode Digest}

theorem rangeOf_eq {span : Nat} (found : spans[span]? = some slice) :
    rangeOf spans span = (slice.count - slice.stop, slice.count - slice.start) := by
  rw [rangeOf, getD_eq_getElem?_getD, getElem?_map, found]
  rfl

theorem weightsOf_eq {span : Nat} (found : spans[span]? = some slice) :
    weightsOf spans span = forestWeights slice.count := by
  rw [weightsOf, getD_eq_getElem?_getD, getElem?_map, found]
  rfl

def forestOf (forests : List (List (SkewTree (Item Digest)))) (span : Nat) :
    List (SkewTree (Item Digest)) :=
  forests.getD span []

structure JobAt (known : Known Digest) (spans : List (ArchiveSlice Digest))
    (forests : List (List (SkewTree (Item Digest)))) (job : RangeNode Digest)
    (tree : SkewTree (Item Digest)) : Prop where
  located : ∃ before after, items (forestOf forests job.span) = before ++ tree.items ++ after ∧
    before.length = job.offset
  known : TreeAt known tree
  perfect : tree.Perfect
  named : tree.own.1 = job.identity
  sized : tree.size = job.size
  expand : intersects (rangeOf spans job.span).1 (rangeOf spans job.span).2 job.offset
    job.size = true → job.expand = true
  placed : ∀ position, job.forestPosition = some position → ∃ front rest,
    forestOf forests job.span = front ++ tree :: rest ∧ front.length = position ∧
      SkewForest.size front = job.offset

def ValidJob (known : Known Digest) (spans : List (ArchiveSlice Digest))
    (forests : List (List (SkewTree (Item Digest)))) (job : RangeNode Digest) : Prop :=
  ∃ tree, JobAt known spans forests job tree

def reach (forests : List (List (SkewTree (Item Digest)))) (job : RangeNode Digest) : Nat :=
  match job.forestPosition with
  | some _ => SkewForest.size (forestOf forests job.span)
  | none => job.offset + job.size

def load (forests : List (List (SkewTree (Item Digest)))) (job : RangeNode Digest) : Nat :=
  reach forests job - job.offset

def covers (forests : List (List (SkewTree (Item Digest)))) (place : Nat × Nat)
    (job : RangeNode Digest) : Bool :=
  decide (job.span = place.1 ∧ job.offset ≤ place.2 ∧ place.2 < reach forests job)

def sitsAt (place : Nat × Nat) (job : RangeNode Digest) : Bool :=
  decide (job.span = place.1 ∧ job.offset = place.2)

def Wanted (spans : List (ArchiveSlice Digest)) (place : Nat × Nat) : Prop :=
  (rangeOf spans place.1).1 ≤ place.2 ∧ place.2 < (rangeOf spans place.1).2

def indicator (condition : Prop) [Decidable condition] : Nat :=
  if condition then 1 else 0

structure Covering (known : Known Digest) (spans : List (ArchiveSlice Digest))
    (forests : List (List (SkewTree (Item Digest)))) (span start stop bound : Nat)
    (jobs : List (RangeNode Digest)) : Prop where
  valid : ∀ job ∈ jobs, ValidJob known spans forests job
  exact : ∀ place, jobs.countP (covers forests place) =
    indicator (span = place.1 ∧ start ≤ place.2 ∧ place.2 < stop)
  weighs : (jobs.map (load forests)).sum = stop - start
  few : jobs.length ≤ bound

theorem Covering.nil {span start bound : Nat} :
    Covering known spans forests span start start bound [] := by
  refine ⟨fun _ member => absurd member not_mem_nil, ?_, ?_, Nat.zero_le bound⟩
  · intro place
    rw [countP_nil, indicator, if_neg (by omega)]
  · rw [Nat.sub_self]
    rfl

theorem Covering.single (valid : ValidJob known spans forests job) :
    Covering known spans forests job.span job.offset (reach forests job) 1 [job] := by
  refine ⟨?_, ?_, ?_, Nat.le_refl 1⟩
  · intro other member
    rw [mem_singleton.mp member]
    exact valid
  · intro place
    rw [countP_singleton, indicator]
    simp only [covers, decide_eq_true_eq]
  · rw [map_singleton, sum_singleton, load]

theorem Covering.append {span start middle stop leftBound rightBound : Nat}
    {left right : List (RangeNode Digest)}
    (first : Covering known spans forests span start middle leftBound left)
    (second : Covering known spans forests span middle stop rightBound right)
    (low : start ≤ middle) (high : middle ≤ stop) :
    Covering known spans forests span start stop (leftBound + rightBound) (left ++ right) := by
  refine ⟨?_, ?_, ?_, ?_⟩
  · intro job member
    cases mem_append.mp member with
    | inl inside => exact first.valid job inside
    | inr inside => exact second.valid job inside
  · intro place
    rw [countP_append, first.exact, second.exact]
    simp only [indicator]
    split <;> split <;> split <;> omega
  · rw [map_append, sum_append, first.weighs, second.weighs]
    omega
  · rw [length_append]
    exact Nat.add_le_add first.few second.few

section

variable (at_ : JobAt known spans forests job tree)
include at_

theorem JobAt.inside : job.offset + job.size ≤ SkewForest.size (forestOf forests job.span) := by
  obtain ⟨before, after, split, offset⟩ := at_.located
  rw [size_eq_length, split, length_append, length_append, SkewTree.items_length, offset,
    at_.sized]
  omega

theorem JobAt.size_pos : 0 < job.size := by
  rw [← at_.sized]
  exact SkewTree.size_pos

theorem JobAt.le_reach : job.offset + job.size ≤ reach forests job := by
  rw [reach]
  cases job.forestPosition with
  | some position => exact at_.inside
  | none => exact Nat.le_refl _

theorem JobAt.item : (items (forestOf forests job.span))[job.offset]? = some tree.own := by
  obtain ⟨before, after, split, offset⟩ := at_.located
  rw [split, append_assoc, ← offset, getElem?_append_right (Nat.le_refl _), Nat.sub_self]
  cases tree with
  | leaf => rfl
  | branch => rfl

theorem JobAt.node_eq (found : known job.identity = some node) :
    node.contentId = tree.own.2 ∧ node.treeCount = job.size := by
  obtain ⟨same, foundSame, content, count⟩ := at_.known.own_known
  rw [at_.named, found, Option.some.injEq] at foundSame
  subst foundSame
  exact ⟨content, count.trans at_.sized⟩

end

def Grounded (known : Known Digest) (spans : List (ArchiveSlice Digest))
    (forests : List (List (SkewTree (Item Digest)))) : Prop :=
  List.Forall₂ (Stores known) spans forests

theorem Grounded.stores (grounded : Grounded known spans forests) {span : Nat}
    (found : spans[span]? = some slice) : Stores known slice (forestOf forests span) := by
  obtain ⟨inside, rfl⟩ := List.getElem?_eq_some_iff.mp found
  have paired := List.forall₂_iff_get.mp grounded
  have insideForests : span < forests.length := paired.1 ▸ inside
  have stores := paired.2 span inside insideForests
  rw [forestOf, getD_eq_getElem?_getD, getElem?_eq_getElem insideForests]
  exact stores

theorem Grounded.slice (grounded : Grounded known spans forests) {span : Nat}
    (nonempty : forestOf forests span ≠ []) :
    ∃ slice, spans[span]? = some slice ∧ Stores known slice (forestOf forests span) := by
  have inside : span < spans.length := by
    by_contra outside
    apply nonempty
    have paired := List.Forall₂.length_eq grounded
    rw [forestOf, getD_eq_getElem?_getD, getElem?_eq_none (by omega), Option.getD_none]
  exact ⟨spans[span], getElem?_eq_getElem inside,
    grounded.stores (getElem?_eq_getElem inside)⟩

theorem ForestAt.split {first : Option Digest}
    (located : ForestAt known (front ++ tree :: rest) first) :
    TreeAt known tree ∧ ∃ node, known tree.own.1 = some node ∧
      ForestAt known rest node.nextForest := by
  induction front generalizing first with
  | nil => exact located.2
  | cons head front ih =>
    obtain ⟨_, _, _, _, further⟩ := located
    exact ih further

theorem followingOf_spec (grounded : Grounded known spans forests)
    (at_ : JobAt known spans forests job tree) (found : known job.identity = some node) :
    ∃ following, followingOf spans job node = .ok following ∧
      Covering known spans forests job.span (job.offset + job.size) (reach forests job) 1
        following := by
  rw [followingOf]
  cases placed : job.forestPosition with
  | none =>
    refine ⟨[], rfl, ?_⟩
    rw [reach, placed]
    exact .nil
  | some position =>
    obtain ⟨front, rest, split, length, size⟩ := at_.placed position placed
    have nonempty : forestOf forests job.span ≠ [] := by simp [split]
    obtain ⟨slice, slice_eq, stores⟩ := grounded.slice nonempty
    have located := stores.located
    rw [split] at located
    obtain ⟨_, same, foundSame, further⟩ := located.split
    rw [at_.named, found, Option.some.injEq] at foundSame
    subst foundSame
    have weights : (weightsOf spans job.span)[position + 1]? = rest.head?.map SkewTree.size := by
      rw [weightsOf_eq slice_eq, ← stores.counted, forestWeights_eq stores.skew, split,
        getElem?_map, ← length, getElem?_append_right (Nat.le_succ _),
        Nat.succ_sub (Nat.le_refl _), Nat.sub_self, getElem?_cons_succ, head?_eq_getElem?]
    have total : reach forests job = job.offset + job.size + SkewForest.size rest := by
      rw [reach, placed]
      dsimp only
      rw [split, size_append, size_cons, size, at_.sized, add_assoc]
    dsimp only
    rw [weights]
    cases rest with
    | nil =>
      change node.nextForest = none at further
      rw [further, total]
      exact ⟨[], rfl, .nil⟩
    | cons second rest =>
      obtain ⟨next, secondAt, _⟩ := further
      rw [next]
      refine ⟨[_], rfl, ?_⟩
      have second_mem : second ∈ forestOf forests job.span := by simp [split]
      have extended : SkewForest.size (front ++ [tree]) = job.offset + job.size := by
        rw [size_append, size_cons, size, at_.sized]
        rfl
      have valid : JobAt known spans forests
          ⟨job.span, second.own.1, job.offset + job.size, second.size, some (position + 1),
            true⟩ second := by
        refine ⟨⟨items (front ++ [tree]), items rest, ?_, ?_⟩, secondAt,
          stores.skew.perfect second second_mem, rfl, rfl, fun _ => rfl, ?_⟩
        · rw [split, append_cons, items_append, items_cons, append_assoc]
        · rw [← size_eq_length, extended]
        · intro other same
          cases same
          refine ⟨front ++ [tree], rest, by rw [split, append_cons], ?_, extended⟩
          rw [length_append, length, length_singleton]
      have covering := Covering.single ⟨second, valid⟩
      have ends : reach forests (⟨job.span, second.own.1, job.offset + job.size, second.size,
          some (position + 1), true⟩ : RangeNode Digest) = reach forests job := by
        rw [reach, reach, placed]
      rw [ends] at covering
      exact covering

theorem childJob_at {own : Item Digest} {newer older child : SkewTree (Item Digest)}
    (at_ : JobAt known spans forests job (.branch own newer older))
    (childKnown : TreeAt known child) (childPerfect : child.Perfect)
    (sized : child.size = childSize)
    (split : own :: (newer.items ++ older.items) = front ++ child.items ++ back) :
    JobAt known spans forests
      (childJob spans job child.own.1 (job.offset + front.length) childSize) child := by
  obtain ⟨before, after, whole, offset⟩ := at_.located
  refine ⟨⟨before ++ front, back ++ after, ?_, ?_⟩, childKnown, childPerfect, rfl, sized,
    fun meets => meets, fun position impossible => nomatch impossible⟩
  · change items (forestOf forests job.span) = _
    rw [whole, SkewTree.items, split]
    simp only [append_assoc]
  · rw [length_append, offset]
    rfl

theorem childrenOf_spec (at_ : JobAt known spans forests job tree)
    (found : known job.identity = some node) :
    ∃ children, childrenOf spans job node = .ok children ∧
      Covering known spans forests job.span (job.offset + 1) (job.offset + job.size) 2
        children := by
  rw [childrenOf]
  cases tree with
  | leaf own =>
    have single : job.size = 1 := at_.sized.symm
    rw [if_neg (by omega), single]
    exact ⟨[], rfl, .nil⟩
  | branch own newer older =>
    obtain ⟨⟨same, foundSame, _, _, left, right⟩, newerAt, olderAt⟩ := at_.known
    obtain ⟨newerPerfect, olderPerfect, same_size⟩ := at_.perfect
    have named := at_.named
    rw [SkewTree.own] at named
    rw [named, found, Option.some.injEq] at foundSame
    subst foundSame
    have total : newer.size + older.size + 1 = job.size := at_.sized
    have childSize : (job.size - 1) / 2 = newer.size := by omega
    have newerPos : 0 < newer.size := SkewTree.size_pos
    have newerJob := childJob_at at_ newerAt newerPerfect rfl
      (show own :: (newer.items ++ older.items) = [own] ++ newer.items ++ older.items by simp)
    have olderJob := childJob_at at_ olderAt olderPerfect same_size.symm
      (show own :: (newer.items ++ older.items) = (own :: newer.items) ++ older.items ++ [] by
        simp)
    have shift : job.offset + (newer.size + 1) = job.offset + 1 + newer.size := by omega
    rw [length_cons, SkewTree.items_length, shift] at olderJob
    have first : Covering known spans forests job.span (job.offset + 1)
        (job.offset + 1 + newer.size) 1 [_] := .single ⟨newer, newerJob⟩
    have second : Covering known spans forests job.span (job.offset + 1 + newer.size)
        (job.offset + 1 + newer.size + newer.size) 1 [_] := .single ⟨older, olderJob⟩
    have ends : job.offset + job.size = job.offset + 1 + newer.size + newer.size := by omega
    rw [if_pos (by omega), left, right, childSize, ends]
    exact ⟨[_, _], rfl, first.append second (by omega) (by omega)⟩

end Linktools.Archive
