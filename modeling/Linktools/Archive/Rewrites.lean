import Linktools.Archive.Preparations

namespace Linktools.Archive

open Library
open List hiding span

/-! Appends of values: each value gets a content record that was made from it, new or found. -/

variable {Digest Raw Payload : Type} [DecidableEq Digest] [DecidableEq Raw]
  {archive : ContentArchive} {hashing : Hashing Digest Raw Payload}
  {store : ArchiveStore Digest Payload}
  {before middle : PreparedArchive Digest Payload} {identity : Digest}
  {content : ContentRecord Digest Payload} {value : String × Raw} {values : List (String × Raw)}

namespace ContentArchive

open Action

omit [DecidableEq Digest] [DecidableEq Raw] in
theorem newContent_genuine (named : value.1 ≠ "") :
    Genuine hashing (hashing.valueIdentity value) (newContent hashing objects value named) :=
  ⟨rfl, objects, value.2, rfl, rfl, rfl⟩

theorem verifyContent_eq_ok (collisionFree : hashing.CollisionFree)
    (readsBack : hashing.ReadsBack objects)
    (genuine : Genuine hashing (hashing.valueIdentity value) content) :
    verifyContent hashing objects (hashing.valueIdentity value) value content = .ok () := by
  obtain ⟨identity, made, raw, digest, size, encoded⟩ := genuine
  have same : raw = value.2 := by
    apply collisionFree.raw
    rw [← digest]
    exact (collisionFree.content _ _ _ _ identity).2
  subst same
  have decoded :
      hashing.decodePayload objects content.compression content.payload = some value.2 := by
    have parts := Prod.mk.inj encoded
    rw [parts.1, parts.2]
    exact readsBack made value.2
  have read : hashing.readContent objects content = .ok value.2 := by
    rw [Hashing.readContent, decoded]
    exact if_pos ⟨size.symm, digest.symm⟩
  rw [verifyContent, refuse_of_not (not_or.mpr ⟨not_not.mpr identity, not_not.mpr size⟩), ok_bind,
    read, ok_bind]
  exact refuse_of_not (not_not.mpr rfl)

omit [DecidableEq Raw] in
theorem withContent_grew (sound : PreparedSound archive hashing store before)
    (genuine : Genuine hashing identity content) :
    Grew archive hashing store before (before.withContent identity content) := by
  refine sound.sameNodes (.inl rfl) rfl rfl ?_ sound.observed
  intro other otherContent found
  dsimp only [PreparedArchive.withContent] at found
  by_cases here : other = identity
  case pos =>
    rw [here, AList.lookup_insert, Option.some.injEq] at found
    rw [here, ← found]
    exact genuine
  case neg =>
    rw [AList.lookup_insert_ne here] at found
    exact sound.genuine other otherContent found

theorem prepareOne_ensures (collisionFree : hashing.CollisionFree)
    (sound : PreparedSound archive hashing store before) (genuine : AllGenuine hashing existing) :
    Ensures (hashing.ReadsBack objects ∧ value.1 ≠ "") (Grew archive hashing store before)
      (prepareOne hashing objects existing (hashing.valueIdentity value, value)) before
      fun _ _ => True := by
  rw [prepareOne]
  by_cases named : value.1 ≠ ""
  case neg =>
    rw [dif_neg named]
    exact .lift (.refl sound) (fun _ _ => trivial) fun condition => absurd condition.2 named
  case pos =>
    rw [dif_pos named]
    refine Ensures.bind_get ?_
    dsimp only
    cases found : (existing.lookup (hashing.valueIdentity value)).or
        (before.contents.lookup (hashing.valueIdentity value)) with
    | none => exact .update (withContent_grew sound (newContent_genuine named)) trivial
    | some content =>
      have contentGenuine : Genuine hashing (hashing.valueIdentity value) content := by
        rw [Option.or_eq_some_iff] at found
        cases found with
        | inl here => exact genuine _ _ here
        | inr there => exact sound.genuine _ _ there.2
      have verified : Ensures (hashing.ReadsBack objects ∧ value.1 ≠ "")
          (Grew archive hashing store before)
          (liftM (verifyContent hashing objects (hashing.valueIdentity value) value content) :
            Preparing Digest Payload Unit) before fun _ last => last = before :=
        .lift (.refl sound) (fun _ _ => rfl) fun condition =>
          ⟨(), verifyContent_eq_ok collisionFree condition.1 contentGenuine⟩
      refine verified.bind ?_
      intro _ same _ last
      rw [last]
      exact .update (withContent_grew sound contentGenuine) trivial

variable {returns : Prop}

omit [DecidableEq Raw] in
theorem popObserved_ensures (keys : List Digest)
    (sound : PreparedSound archive hashing store before) :
    Ensures returns (Grew archive hashing store before)
      (popObserved keys : Preparing Digest Payload _) before fun observed _ =>
        ∀ identity content, observed.lookup identity = some (some content) →
          Genuine hashing identity content := by
  have popped : Grew archive hashing store before
      { before with observed := Table.eraseAll before.observed keys } := by
    refine sound.sameNodes (.inl rfl) rfl rfl sound.genuine ?_
    intro identity content found
    dsimp only at found
    rw [Table.lookup_eraseAll] at found
    split at found
    case isTrue => cases found
    case isFalse => exact sound.observed identity content found
  rw [popObserved]
  refine Ensures.bind_get ?_
  have updated : Ensures returns (Grew archive hashing store before)
      (modify fun prepared => { prepared with observed := Table.eraseAll prepared.observed keys } :
        Preparing Digest Payload PUnit) before fun _ _ => True :=
    .update popped trivial
  refine updated.bind ?_
  intro _ _ grew _
  exact .pure grew fun identity content found =>
    sound.observed identity content (lookup_of_restrict found)

omit [DecidableEq Raw] in
theorem withObserved_genuine
    (observedGenuine : ∀ identity content, observed.lookup identity = some (some content) →
      Genuine hashing identity content)
    (genuine : AllGenuine hashing rows) : AllGenuine hashing (withObserved observed rows) := by
  rw [withObserved]
  have each : ∀ entry ∈ Table.items observed, ∀ content, entry.2 = some content →
      Genuine hashing entry.1 content := by
    intro entry member content same
    apply observedGenuine
    rw [← same]
    exact Table.mem_items.mp member
  generalize Table.items observed = entries at each
  induction entries generalizing rows with
  | nil => exact genuine
  | cons entry rest ih =>
    rw [foldl_cons]
    refine ih ?_ fun other member => each other (mem_cons_of_mem _ member)
    cases here : entry.2 with
    | none => exact genuine
    | some content =>
      intro identity found same
      by_cases own : identity = entry.1
      case pos =>
        rw [own, AList.lookup_insert, Option.some.injEq] at same
        rw [own, ← same]
        exact each entry mem_cons_self content here
      case neg =>
        rw [AList.lookup_insert_ne own] at same
        exact genuine identity found same

omit [DecidableEq Raw] in
theorem uniqueValues_identity (member : entry ∈ uniqueValues hashing values) :
    entry.1 = hashing.valueIdentity entry.2 ∧ entry.2 ∈ values := by
  obtain ⟨identity, _, found⟩ := mem_filterMap.mp member
  have inside := mem_reverse.mp (mem_of_find?_eq_some found)
  obtain ⟨value, valueMember, rfl⟩ := mem_map.mp inside
  exact ⟨rfl, valueMember⟩

theorem prepareContent_ensures (collisionFree : hashing.CollisionFree)
    (storeSound : StoreSound hashing store) (sound : PreparedSound archive hashing store before)
    (genuine : ∀ rows, existing = some rows → AllGenuine hashing rows) :
    Ensures (hashing.ReadsBack objects ∧ ∀ value ∈ values, value.1 ≠ "")
      (Grew archive hashing store before)
      (archive.prepareContent hashing objects store values existing) before
      fun identities _ => identities = values.map hashing.valueIdentity := by
  rw [prepareContent]
  refine Ensures.bind ((bindPrepared_ensures sound).weaken fun _ => trivial) ?_
  intro _ bound grewBound _
  refine Ensures.bind ((popObserved_ensures _ grewBound.sound).mono
    (fun _ grew => grewBound.trans grew) fun _ _ _ result => result) ?_
  intro observed popped grewPopped observedGenuine
  refine Ensures.bind_get ?_
  have existingGenuine : AllGenuine hashing (existing.getD (withObserved observed
      (Table.restrict store.contents
        (unreadKeys popped observed ((uniqueValues hashing values).map Prod.fst))))) := by
    cases existing with
    | some rows => exact genuine rows rfl
    | none =>
      exact withObserved_genuine observedGenuine fun identity content found =>
        storeSound.genuine identity content (lookup_of_restrict found)
  refine Ensures.bind (Ensures.forM grewPopped ?_) ?_
  · intro entry member state grew
    obtain ⟨identity_eq, valueMember⟩ := uniqueValues_identity member
    obtain ⟨identity, value⟩ := entry
    dsimp only at identity_eq valueMember
    subst identity_eq
    exact ((prepareOne_ensures collisionFree grew.sound existingGenuine).weaken
      fun condition => ⟨condition.1, condition.2 value valueMember⟩).mono
        (fun _ more => grew.trans more) fun _ _ _ result => result
  · intro _ last grewLast _
    exact .pure grewLast rfl

omit [DecidableEq Raw] in
theorem adoptSequence_ensures (collisionFree : hashing.CollisionFree)
    (storeSound : StoreSound hashing store) (sound : PreparedSound archive hashing store before)
    (stored : store.sequences.lookup row.1 = some row.2) :
    Ensures returns (Grew archive hashing store before) (adoptSequence hashing row) before
      fun _ _ => True := by
  have known : knownIn store before row.1 = some row.2 :=
    sound.stored collisionFree storeSound row.1 row.2 stored
  have addressed := storeSound.addressed _ _ stored
  have nodeAgrees : ¬∃ previous ∈ before.nodes.lookup row.1, previous ≠ row.2 := by
    rintro ⟨previous, found, different⟩
    rw [knownIn, Option.mem_def.mp found, Option.some_or, Option.some.injEq] at known
    exact different known
  have recordAgrees : ¬∃ previous ∈ before.sequences.lookup row.1, previous ≠ row.2 := by
    rintro ⟨previous, found, different⟩
    exact nodeAgrees ⟨previous, sound.recorded _ _ found, different⟩
  obtain ⟨forest, skew, located⟩ := sound.wellFormed _ _ known
  have grown : Grew archive hashing store before (before.withSequence row.1 row.2) :=
    sound.withSequence collisionFree addressed
      ⟨forest, skew, located.mono (sound.within_withSequence collisionFree addressed)⟩
  rw [adoptSequence]
  refine Ensures.bind (Ensures.lift_ok (decodeNodeRecord_eq_ok addressed) (.refl sound)) ?_
  intro node state _ same
  obtain ⟨rfl, rfl⟩ := same
  refine Ensures.bind_get ?_
  refine Ensures.bind (Ensures.lift_ok (refuse_of_not recordAgrees) (.refl sound)) ?_
  intro _ state _ same
  obtain ⟨_, rfl⟩ := same
  refine Ensures.bind (Ensures.lift_ok (refuse_of_not nodeAgrees) (.refl sound)) ?_
  intro _ state _ same
  obtain ⟨_, rfl⟩ := same
  exact .update grown trivial

/-- An append of values does what an append of their identities does. -/
theorem prepareAppend_ensures (collisionFree : hashing.CollisionFree)
    (storeSound : StoreSound hashing store) (sound : PreparedSound archive hashing store before)
    {root : ArchiveRoot Digest} {contents : List Digest} (owned : archive.Owns hashing root)
    (holds : Holds (knownIn store before) root contents) :
    Ensures (hashing.ReadsBack objects ∧ ∀ value ∈ values, value.1 ≠ "")
      (Grew archive hashing store before)
      (archive.prepareAppend hashing objects store root values) before
      fun result last => archive.Owns hashing result ∧
        (values ≠ [] → (tailOf result.slices).isSome = true) ∧
        Holds (knownIn store last) result (contents ++ values.map hashing.valueIdentity) := by
  obtain ⟨parts, slices, rfl⟩ := holds
  rw [prepareAppend]
  refine Ensures.bind ((bindPrepared_ensures sound).weaken fun _ => trivial) ?_
  intro _ bound grewBound _
  refine Ensures.bind (Ensures.lift_ok (refuse_of_not (not_not.mpr owned)) grewBound) ?_
  intro _ state _ same
  obtain ⟨_, rfl⟩ := same
  by_cases none : values = []
  case pos =>
    rw [if_pos none]
    subst none
    refine .pure grewBound ⟨owned, fun some => absurd rfl some, parts, ?_, by simp⟩
    exact slices.imp fun _ _ held => held.mono grewBound.within
  case neg =>
    rw [if_neg none]
    refine Ensures.bind ((popObserved_ensures _ grewBound.sound).mono
      (fun _ grew => grewBound.trans grew) fun _ _ _ result => result) ?_
    intro observed popped grewPopped observedGenuine
    refine Ensures.bind_get ?_
    obtain ⟨rows, rows_eq, answers⟩ := frontiers_spec (appendRequests popped root)
      (unreadKeys popped observed ((values.map hashing.valueIdentity).eraseDups))
      storeSound.addressed
    refine Ensures.bind (Ensures.lift_ok rows_eq grewPopped) ?_
    intro read state _ same
    obtain ⟨rfl, rfl⟩ := same
    refine Ensures.bind (Ensures.forM grewPopped ?_) ?_
    · intro row member last grew
      have stored := answers.sequences _ _ (Table.mem_items.mp member)
      exact (adoptSequence_ensures collisionFree storeSound grew.sound stored).mono
        (fun _ more => grew.trans more) fun _ _ _ result => result
    · intro _ adopted grewAdopted _
      refine Ensures.bind ((prepareContent_ensures collisionFree storeSound grewAdopted.sound
        ?_).mono (fun _ more => grewAdopted.trans more) fun _ _ _ result => result) ?_
      · intro existing same
        cases same
        exact withObserved_genuine observedGenuine fun identity content found =>
          storeSound.genuine identity content (answers.contents _ _ found)
      · intro identities ready grewReady same
        subst same
        refine Ensures.bind (((appendLoop_ensures collisionFree storeSound grewReady.sound
          (slices.imp fun _ _ held => held.mono grewReady.within)).weaken fun _ => trivial).mono
            (fun _ more => grewReady.trans more) fun _ _ _ result => result) ?_
        intro result last grown appended
        obtain ⟨tailed, extended, extendedHolds, contents_eq⟩ := appended
        refine .pure grown ⟨⟨rfl, rfl⟩, fun some => tailed (.inl ?_), extended, extendedHolds,
          contents_eq.symm⟩
        exact fun empty => some (map_eq_nil_iff.mp empty)

end ContentArchive

variable {known : Known Digest}

omit [DecidableEq Digest] [DecidableEq Raw] in
theorem TreeAt.unique (leftAt : TreeAt known left) (rightAt : TreeAt known right)
    (same : left.own.1 = right.own.1) : left = right := by
  induction left generalizing right with
  | leaf own =>
    obtain ⟨node, found, content, count⟩ := leftAt
    cases right with
    | leaf other =>
      obtain ⟨otherNode, otherFound, otherContent, _⟩ := rightAt
      change own.1 = other.1 at same
      rw [same, otherFound, Option.some.injEq] at found
      subst found
      rw [Prod.ext same (content.symm.trans otherContent)]
    | branch other newer older =>
      obtain ⟨⟨otherNode, otherFound, _, otherCount, _⟩, _⟩ := rightAt
      change own.1 = other.1 at same
      rw [same, otherFound, Option.some.injEq] at found
      subst found
      have newerPos : 0 < newer.size := SkewTree.size_pos
      omega
  | branch own newer older newerUnique olderUnique =>
    obtain ⟨⟨node, found, content, count, newerLink, olderLink⟩, newerAt, olderAt⟩ := leftAt
    cases right with
    | leaf other =>
      obtain ⟨otherNode, otherFound, _, otherCount⟩ := rightAt
      change own.1 = other.1 at same
      rw [same, otherFound, Option.some.injEq] at found
      subst found
      have newerPos : 0 < newer.size := SkewTree.size_pos
      omega
    | branch other =>
      obtain ⟨⟨otherNode, otherFound, otherContent, _, otherNewerLink, otherOlderLink⟩,
        otherNewerAt, otherOlderAt⟩ := rightAt
      change own.1 = other.1 at same
      rw [same, otherFound, Option.some.injEq] at found
      subst found
      rw [newerLink, Option.some.injEq] at otherNewerLink
      rw [olderLink, Option.some.injEq] at otherOlderLink
      rw [Prod.ext same (content.symm.trans otherContent),
        newerUnique newerAt otherNewerAt otherNewerLink,
        olderUnique olderAt otherOlderAt otherOlderLink]

omit [DecidableEq Digest] [DecidableEq Raw] in
theorem ForestAt.unique (leftAt : ForestAt known left first)
    (rightAt : ForestAt known right first) :
    left = right := by
  induction left generalizing right first with
  | nil =>
    cases right with
    | nil => rfl
    | cons =>
      rw [show first = none from leftAt] at rightAt
      cases rightAt.1
  | cons tree rest ih =>
    obtain ⟨named, treeAt, node, found, further⟩ := leftAt
    cases right with
    | nil =>
      rw [show first = none from rightAt] at named
      cases named
    | cons =>
      obtain ⟨otherNamed, otherAt, otherNode, otherFound, otherFurther⟩ := rightAt
      rw [named, Option.some.injEq] at otherNamed
      have same := treeAt.unique otherAt otherNamed
      subst same
      rw [found, Option.some.injEq] at otherFound
      subst otherFound
      rw [ih further otherFurther]

omit [DecidableEq Raw] in
theorem joinSlice_holds (holds : List.Forall₂ (SliceHolds known) slices parts)
    (held : SliceHolds known span part) :
    ∃ joined, List.Forall₂ (SliceHolds known) (ContentArchive.joinSlice slices span) joined ∧
      joined.flatten = parts.flatten ++ part := by
  rw [ContentArchive.joinSlice]
  cases last : slices.getLast? with
  | none =>
    have empty := getLast?_eq_none_iff.mp last
    subst empty
    cases holds
    exact ⟨[part], .cons held .nil, by simp⟩
  | some old =>
    have split := dropLast_append_getLast? old last
    dsimp only
    split
    case isTrue joins =>
      obtain ⟨first, count, stop⟩ := joins
      rw [← split] at holds
      obtain ⟨front, oldPart, rfl, earlier, forest, stores, oldPart_eq⟩ :=
        ContentArchive.related_concat holds
      obtain ⟨spanForest, spanStores, part_eq⟩ := held
      have located := spanStores.located
      rw [← first] at located
      have same := stores.located.unique located
      subst same
      refine ⟨front ++ [((contentsOf forest).take span.stop).drop old.start],
        rel_append earlier (.cons ⟨forest, ⟨stores.skew, stores.located, stores.counted⟩, rfl⟩
          .nil), ?_⟩
      have oldOrdered := old.ordered
      have spanOrdered := span.ordered
      have whole : ((contentsOf forest).take span.stop).drop old.start = oldPart ++ part := by
        have length : old.stop ≤ (contentsOf forest).length := by
          rw [length_contentsOf, stores.counted]
          exact oldOrdered.2
        have divided := take_append_drop old.stop ((contentsOf forest).take span.stop)
        rw [take_take, min_eq_left (by omega)] at divided
        rw [oldPart_eq, part_eq, ← stop, ← divided, drop_append, length_take,
          min_eq_left length, Nat.sub_eq_zero_of_le (by omega), drop_zero, divided]
      simp [whole]
    case isFalse => exact ⟨parts ++ [part], rel_append holds (.cons held .nil), by simp⟩

omit [DecidableEq Raw] in
theorem joinSlices_holds (holds : List.Forall₂ (SliceHolds known) slices parts)
    (added : List.Forall₂ (SliceHolds known) spans spanParts) :
    ∃ joined, List.Forall₂ (SliceHolds known) (spans.foldl ContentArchive.joinSlice slices) joined ∧
      joined.flatten = parts.flatten ++ spanParts.flatten := by
  induction added generalizing slices parts with
  | nil => exact ⟨parts, holds, by simp⟩
  | cons held _ ih =>
    obtain ⟨middle, middleHolds, middleContents⟩ := joinSlice_holds holds held
    obtain ⟨joined, joinedHolds, contents⟩ := ih middleHolds
    exact ⟨joined, joinedHolds, by
      rw [contents, middleContents, flatten_cons, append_assoc]⟩

def Selects (previous : List Digest) (identity : Digest) (choice : Option Nat) : Prop :=
  ∀ position, choice = some position → previous[position]? = some identity

def Lists (previous : List Digest) (positions : Table Digest (List Nat)) : Prop :=
  ∀ identity, ∀ position ∈ (positions.lookup identity).getD [], previous[position]? = some identity

variable {positions : Table Digest (List Nat)} {identities previous : List Digest}

omit [DecidableEq Raw] in
theorem Lists.insert (lists : Lists previous positions)
    (held : ∀ position ∈ choices, previous[position]? = some identity) :
    Lists previous (positions.insert identity choices) := by
  intro other position member
  by_cases here : other = identity
  case pos =>
    rw [here, AList.lookup_insert] at member
    rw [here]
    exact held position member
  case neg =>
    rw [AList.lookup_insert_ne here] at member
    exact lists other position member

omit [DecidableEq Raw] in
theorem positionsOf_lists (previous : List Digest) :
    Lists previous (ContentArchive.positionsOf previous) := by
  rw [ContentArchive.positionsOf]
  have each : ∀ entry ∈ previous.zipIdx, previous[entry.2]? = some entry.1 :=
    fun entry member => mem_zipIdx_iff_getElem?.mp member
  have start : Lists previous ∅ := nofun
  generalize (∅ : Table Digest (List Nat)) = positions at start
  generalize previous.zipIdx = entries at each
  induction entries generalizing positions with
  | nil => exact start
  | cons entry rest ih =>
    rw [foldl_cons]
    refine ih _ ?_ fun other member => each other (mem_cons_of_mem _ member)
    apply start.insert
    intro position member
    cases mem_append.mp member with
    | inl earlier => exact start entry.1 position earlier
    | inr own =>
      rw [mem_singleton.mp own]
      exact each entry mem_cons_self

omit [DecidableEq Raw] in
theorem selectLoop_selects (lists : Lists previous positions) :
    List.Forall₂ (Selects previous) identities
      (ContentArchive.selectLoop positions cursor identities) := by
  induction identities generalizing positions cursor with
  | nil => exact .nil
  | cons identity rest ih =>
    have held : ∀ position ∈ ((positions.lookup identity).getD []).dropWhile (· < cursor),
        previous[position]? = some identity :=
      fun position member => lists identity position ((dropWhile_sublist _).mem member)
    rw [ContentArchive.selectLoop]
    cases found : ((positions.lookup identity).getD []).dropWhile (· < cursor) with
    | nil => exact .cons nofun (ih (lists.insert nofun))
    | cons position later =>
      rw [found] at held
      refine .cons ?_ (ih (lists.insert fun other member =>
        held other (mem_cons_of_mem _ member)))
      intro other same
      cases same
      exact held position mem_cons_self

omit [DecidableEq Digest] [DecidableEq Raw] in
theorem runLength_spec {previous identities : List Digest} {choices : List (Option Nat)}
    {position : Nat} (selects : List.Forall₂ (Selects previous) identities choices) :
    ContentArchive.runLength position choices ≤ identities.length ∧
      (previous.drop position).take (ContentArchive.runLength position choices) =
        identities.take (ContentArchive.runLength position choices) := by
  induction selects generalizing position with
  | nil => exact ⟨le_refl _, rfl⟩
  | @cons identity choice rest _ here _ ih =>
    cases choice with
    | none => exact ⟨Nat.zero_le _, rfl⟩
    | some next =>
      rw [ContentArchive.runLength]
      by_cases continues : next = position
      case neg =>
        rw [if_neg continues]
        exact ⟨Nat.zero_le _, rfl⟩
      case pos =>
        subst continues
        rw [if_pos rfl]
        obtain ⟨bound, same⟩ := @ih (next + 1)
        have found := here next rfl
        obtain ⟨inside, value⟩ := List.getElem?_eq_some_iff.mp found
        refine ⟨by rw [length_cons]; omega, ?_⟩
        rw [drop_eq_getElem_cons inside, value, take_succ_cons, same, take_succ_cons]

namespace ContentArchive

open Action

theorem rewriteLoop_ensures (collisionFree : hashing.CollisionFree)
    (storeSound : StoreSound hashing store) (sound : PreparedSound archive hashing store before)
    (baselineHolds : Holds (knownIn store before) baseline previous)
    (selects : List.Forall₂ (Selects previous)
      (entries.map fun entry => hashing.valueIdentity entry.1) (entries.map Prod.snd))
    (owned : archive.Owns hashing root) (holds : Holds (knownIn store before) root contents)
    (enough : entries.length ≤ fuel) :
    Ensures (hashing.ReadsBack objects ∧ ∀ entry ∈ entries, entry.1.1 ≠ "")
      (Grew archive hashing store before)
      (archive.rewriteLoop hashing objects store baseline fuel entries root) before
      fun result last => archive.Owns hashing result ∧ Holds (knownIn store last) result
        (contents ++ entries.map fun entry => hashing.valueIdentity entry.1) := by
  induction fuel generalizing before entries root contents with
  | zero =>
    have none := eq_nil_of_length_eq_zero (Nat.le_zero.mp enough)
    subst none
    exact .pure (.refl sound) ⟨owned, by simpa using holds⟩
  | succ fuel ih =>
    cases entries with
    | nil => exact .pure (.refl sound) ⟨owned, by simpa using holds⟩
    | cons entry rest =>
      obtain ⟨value, choice⟩ := entry
      rw [map_cons, map_cons] at selects
      cases selects with
      | cons here later =>
        rw [length_cons] at enough
        have dropped : ∀ count, List.Forall₂ (Selects previous)
            ((rest.drop count).map fun entry => hashing.valueIdentity entry.1)
            ((rest.drop count).map Prod.snd) := by
          intro count
          rw [map_drop, map_drop]
          exact forall₂_drop count later
        have fewer : ∀ count, (rest.drop count).length ≤ fuel := by
          intro count
          rw [length_drop]
          omega
        cases choice with
        | none =>
          rw [rewriteLoop]
          have fresh_eq : rest.take (rest.takeWhile fun entry => entry.2.isNone).length =
              rest.takeWhile fun entry => entry.2.isNone :=
            (prefix_iff_eq_take.mp (List.takeWhile_prefix _)).symm
          generalize (rest.takeWhile fun entry => entry.2.isNone) = fresh at fresh_eq
          refine Ensures.bind ((prepareAppend_ensures collisionFree storeSound sound owned
            holds).weaken ?_) ?_
          · intro condition
            refine ⟨condition.1, ?_⟩
            intro other member
            cases mem_cons.mp member with
            | inl same =>
              rw [same]
              exact condition.2 _ mem_cons_self
            | inr inside =>
              obtain ⟨source, sourceMember, rfl⟩ := mem_map.mp inside
              rw [← fresh_eq] at sourceMember
              exact condition.2 source (mem_cons_of_mem _ (mem_of_mem_take sourceMember))
          · intro appended middle grew result
            obtain ⟨ownedMiddle, _, middleHolds⟩ := result
            refine ((ih grew.sound (baselineHolds.mono grew.within)
              (dropped fresh.length) ownedMiddle middleHolds (fewer _)).weaken
                fun condition => ⟨condition.1, fun other member => condition.2 other
                  (mem_cons_of_mem _ (mem_of_mem_drop member))⟩).mono
              (fun _ more => grew.trans more) ?_
            intro final last _ finished
            refine ⟨finished.1, ?_⟩
            have whole : ((value :: fresh.map Prod.fst).map hashing.valueIdentity ++
                (rest.drop fresh.length).map fun entry => hashing.valueIdentity entry.1) =
                  hashing.valueIdentity value ::
                    rest.map fun entry => hashing.valueIdentity entry.1 := by
              have divided := take_append_drop fresh.length rest
              rw [fresh_eq] at divided
              conv_rhs => rw [← divided, map_append]
              rw [map_cons, cons_append, map_map]
              rfl
            rw [map_cons, ← whole, ← append_assoc]
            exact finished.2
        | some position =>
          rw [rewriteLoop]
          obtain ⟨bound, run⟩ := @runLength_spec _ _ _ _ (position + 1) later
          generalize runLength (position + 1) (rest.map Prod.snd) = length at bound run
          obtain ⟨inside, found⟩ := List.getElem?_eq_some_iff.mp (here position rfl)
          have fits : position + 1 + length ≤ previous.length := by
            have sizes := congrArg List.length run
            rw [length_take, length_take, length_drop] at sizes
            omega
          obtain ⟨part, part_eq, _, _, partParts, partSlices, partContents⟩ :=
            baselineHolds.slice (by omega : position ≤ position + 1 + length)
              (baselineHolds.length ▸ fits)
          obtain ⟨parts, slices, rfl⟩ := holds
          obtain ⟨joined, joinedHolds, joinedContents⟩ := joinSlices_holds slices partSlices
          have cut : (previous.take (position + 1 + length)).drop position =
              hashing.valueIdentity value ::
                (rest.map fun entry => hashing.valueIdentity entry.1).take length := by
            rw [drop_take, drop_eq_getElem_cons inside, found, ← run,
              show position + 1 + length - position = length + 1 by omega, take_succ_cons]
          refine Ensures.bind (Ensures.lift_ok part_eq (.refl sound)) ?_
          intro read state _ same
          obtain ⟨rfl, rfl⟩ := same
          have rootOwned : archive.Owns hashing (⟨archive.scopeId,
              archive.contentScope hashing, read.slices.foldl joinSlice root.slices⟩ :
                ArchiveRoot Digest) := ⟨rfl, rfl⟩
          refine ((ih sound baselineHolds (dropped length) rootOwned
            ⟨joined, joinedHolds, rfl⟩ (fewer length)).weaken fun condition =>
              ⟨condition.1, fun other member => condition.2 other
                (mem_cons_of_mem _ (mem_of_mem_drop member))⟩).mono
            (fun _ grew => grew) ?_
          intro final last _ finished
          refine ⟨finished.1, ?_⟩
          have whole : joined.flatten ++
              ((rest.drop length).map fun entry => hashing.valueIdentity entry.1) =
                parts.flatten ++ hashing.valueIdentity value ::
                  rest.map fun entry => hashing.valueIdentity entry.1 := by
            rw [joinedContents, ← partContents, cut, append_assoc, cons_append,
              map_drop, take_append_drop]
          rw [map_cons, ← whole]
          exact finished.2

omit [DecidableEq Digest] [DecidableEq Raw] in
theorem emptyRoot_holds : Holds known (archive.emptyRoot hashing) ([] : List Digest) :=
  .nil

/-- The values of a rewrite are its contents, whichever of them the old root had. -/
theorem rewriteFrom_ensures (collisionFree : hashing.CollisionFree)
    (storeSound : StoreSound hashing store) {baseline : ArchiveRoot Digest}
    {previous : List Digest} (sound : PreparedSound archive hashing store before)
    (baselineHolds : Holds (knownIn store before) baseline previous) :
    Ensures (hashing.ReadsBack objects ∧ ∀ value ∈ values, value.1 ≠ "")
      (Grew archive hashing store before)
      (archive.rewriteFrom hashing objects store baseline previous values) before
      fun result last => archive.Owns hashing result ∧
        Holds (knownIn store last) result (values.map hashing.valueIdentity) := by
  have selects : List.Forall₂ (Selects previous) (values.map hashing.valueIdentity)
      (selectLoop (positionsOf previous) 0 (values.map hashing.valueIdentity)) :=
    selectLoop_selects (positionsOf_lists previous)
  rw [rewriteFrom]
  generalize selectLoop (positionsOf previous) 0 (values.map hashing.valueIdentity) = selected
    at selects
  have length : values.length = selected.length := by
    rw [← selects.length_eq, length_map]
  have firsts : (values.zip selected).map (fun entry => hashing.valueIdentity entry.1) =
      values.map hashing.valueIdentity := by
    have firsts_eq := congrArg (map hashing.valueIdentity)
      (map_fst_zip (le_of_eq length))
    rw [map_map] at firsts_eq
    exact firsts_eq
  have seconds : (values.zip selected).map Prod.snd = selected :=
    map_snd_zip (le_of_eq length.symm)
  have entries : List.Forall₂ (Selects previous)
      ((values.zip selected).map fun entry => hashing.valueIdentity entry.1)
      ((values.zip selected).map Prod.snd) := by
    rw [firsts, seconds]
    exact selects
  refine ((rewriteLoop_ensures collisionFree storeSound sound baselineHolds entries ⟨rfl, rfl⟩
    emptyRoot_holds ?_).weaken ?_).mono (fun _ grew => grew) ?_
  · rw [length_zip]
    omega
  · intro condition
    exact ⟨condition.1, fun entry member => condition.2 entry.1 (of_mem_zip member).1⟩
  · intro result last _ rewritten
    rw [firsts, nil_append] at rewritten
    exact rewritten

end ContentArchive

end Linktools.Archive
