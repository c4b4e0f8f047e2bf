import Linktools.Archive.Resolution
import Linktools.Library.Actions

namespace Linktools.Archive

open Linktools.Core Library Option

/-! The operations that prepare records: appends, rewrites and the publication of what was
prepared.  A preparation keeps what it did before an error. -/

variable {Digest Raw Payload : Type} [DecidableEq Digest]

abbrev Preparing (Digest Payload : Type) :=
  Action (PreparedArchive Digest Payload) Raised

namespace PreparedArchive

variable (prepared : PreparedArchive Digest Payload)

def withNode (identity : Digest) (node : ImmutableSequenceNode Digest) :
    PreparedArchive Digest Payload :=
  { prepared with nodes := prepared.nodes.insert identity node }

def withSequence (identity : Digest) (node : ImmutableSequenceNode Digest) :
    PreparedArchive Digest Payload :=
  { prepared with
    nodes := prepared.nodes.insert identity node
    sequences := prepared.sequences.insert identity node }

def withContent (identity : Digest) (content : ContentRecord Digest Payload) :
    PreparedArchive Digest Payload :=
  { prepared with contents := prepared.contents.insert identity content }

end PreparedArchive

namespace ContentArchive

variable (archive : ContentArchive) (hashing : Hashing Digest Raw Payload) (objects : Bool)
  (store : ArchiveStore Digest Payload)

def bindPrepared : Preparing Digest Payload Unit := do
  let prepared ← get
  let bound ← liftM (archive.bind prepared)
  modify fun _ => bound

def loadNode (identity : Digest) : Preparing Digest Payload (ImmutableSequenceNode Digest) := do
  let prepared ← get
  match prepared.nodes.lookup identity with
  | some node => return node
  | none => do
    let record ← liftM (orRaise (store.sequences.lookup identity) Raised.integrity)
    let node ← liftM (decodeNodeRecord hashing identity record)
    modify fun prepared => prepared.withNode identity node
    return node

def loadOptional : Option Digest → Preparing Digest Payload (Option (ImmutableSequenceNode Digest))
  | none => return none
  | some identity => some <$> loadNode hashing store identity

def tailOf (slices : List (ArchiveSlice Digest)) : Option (ArchiveSlice Digest) :=
  slices.getLast?.filter fun tail => decide tail.Whole

def newestSlice (identity : Digest) (older : Nat) : ArchiveSlice Digest :=
  ⟨identity, older + 1, 0, older + 1, Nat.succ_pos older, le_refl _⟩

def appendOne (slices : List (ArchiveSlice Digest)) (contentId : Digest) :
    Preparing Digest Payload (List (ArchiveSlice Digest)) := do
  let tail := tailOf slices
  let firstId := tail.map ArchiveSlice.first
  let first ← loadOptional hashing store firstId
  let second ← loadOptional hashing store (first.bind ImmutableSequenceNode.nextForest)
  let node ← liftM (appendedNode contentId firstId first second)
  modify fun prepared => prepared.withSequence (hashing.hashNode node) node
  return match tail with
  | none => slices ++ [newestSlice (hashing.hashNode node) 0]
  | some tail => slices.dropLast ++ [newestSlice (hashing.hashNode node) tail.count]

def appendLoop : List Digest → List (ArchiveSlice Digest) →
    Preparing Digest Payload (List (ArchiveSlice Digest))
  | [], slices => return slices
  | contentId :: rest, slices => do
    let slices ← appendOne hashing store slices contentId
    appendLoop rest slices

def append (root : ArchiveRoot Digest) (contents : List Digest) :
    Preparing Digest Payload (ArchiveRoot Digest) := do
  archive.bindPrepared
  liftM (archive.requireOwned hashing root)
  let slices ← appendLoop hashing store contents root.slices
  return ⟨archive.scopeId, archive.contentScope hashing, slices⟩

def uniqueValues (values : List (String × Raw)) : List (Digest × String × Raw) :=
  let pairs := values.map fun value => (hashing.valueIdentity value, value)
  (pairs.map Prod.fst).eraseDups.filterMap fun identity =>
    pairs.reverse.find? fun pair => pair.1 = identity

def newContent (value : String × Raw) (named : value.1 ≠ "") : ContentRecord Digest Payload :=
  ⟨value.1, hashing.hashRaw value.2, hashing.rawSize value.2,
    (hashing.encodePayload objects value.2).1, (hashing.encodePayload objects value.2).2, named⟩

def verifyContent [DecidableEq Raw] (identity : Digest) (value : String × Raw)
    (content : ContentRecord Digest Payload) : Except Raised Unit := do
  refuse (hashing.contentIdentity content ≠ identity ∨
    content.rawSize ≠ hashing.rawSize value.2) .integrity
  let raw ← hashing.readContent objects content
  refuse (raw ≠ value.2) .integrity

def prepareOne [DecidableEq Raw] (existing : Table Digest (ContentRecord Digest Payload))
    (entry : Digest × String × Raw) : Preparing Digest Payload Unit := do
  if named : entry.2.1 ≠ "" then
    let prepared ← get
    match (existing.lookup entry.1).or (prepared.contents.lookup entry.1) with
    | some content => do
      liftM (verifyContent hashing objects entry.1 entry.2 content)
      modify fun prepared => prepared.withContent entry.1 content
    | none =>
      modify fun prepared => prepared.withContent entry.1 (newContent hashing objects entry.2 named)
  else liftM (Except.error (.valueError "content codec is required") : Except Raised Unit)

def popObserved (keys : List Digest) :
    Preparing Digest Payload (Table Digest (Option (ContentRecord Digest Payload))) := do
  let prepared ← get
  modify fun prepared => { prepared with observed := Table.eraseAll prepared.observed keys }
  return Table.restrict prepared.observed keys

/-- The existing records of some contents: those observed before, and those read now. -/
def withObserved (observed : Table Digest (Option (ContentRecord Digest Payload)))
    (rows : Table Digest (ContentRecord Digest Payload)) :
    Table Digest (ContentRecord Digest Payload) :=
  (Table.items observed).foldl (fun rows entry =>
    match entry.2 with
    | some content => rows.insert entry.1 content
    | none => rows) rows

def unreadKeys (prepared : PreparedArchive Digest Payload)
    (observed : Table Digest (Option (ContentRecord Digest Payload))) (keys : List Digest) :
    List Digest :=
  keys.filter fun key =>
    (prepared.contents.lookup key).isNone && (observed.lookup key).isNone

def prepareContent [DecidableEq Raw] (values : List (String × Raw))
    (existing : Option (Table Digest (ContentRecord Digest Payload))) :
    Preparing Digest Payload (List Digest) := do
  archive.bindPrepared
  let entries := uniqueValues hashing values
  let keys := entries.map Prod.fst
  let observed ← popObserved keys
  let prepared ← get
  let existing := existing.getD (withObserved observed
    (Table.restrict store.contents (unreadKeys prepared observed keys)))
  entries.forM (prepareOne hashing objects existing)
  return values.map hashing.valueIdentity

def adoptSequence (row : Digest × ImmutableSequenceNode Digest) :
    Preparing Digest Payload Unit := do
  let node ← liftM (decodeNodeRecord hashing row.1 row.2)
  let prepared ← get
  liftM (refuse (∃ previous ∈ prepared.sequences.lookup row.1, previous ≠ node) Raised.integrity)
  liftM (refuse (∃ previous ∈ prepared.nodes.lookup row.1, previous ≠ node) Raised.integrity)
  modify fun prepared => prepared.withSequence row.1 node

def appendRequests (prepared : PreparedArchive Digest Payload) (root : ArchiveRoot Digest) :
    List (ArchiveNodeRead Digest) :=
  match tailOf root.slices with
  | none => []
  | some tail =>
    match prepared.nodes.lookup tail.first with
    | none => [.build tail.first [.self, .next] []]
    | some known =>
      match known.nextForest with
      | none => []
      | some next =>
        if (prepared.nodes.lookup next).isNone then [.build next [.self] []] else []

def prepareAppend [DecidableEq Raw] (root : ArchiveRoot Digest) (values : List (String × Raw)) :
    Preparing Digest Payload (ArchiveRoot Digest) := do
  archive.bindPrepared
  liftM (archive.requireOwned hashing root)
  if values = [] then return root
  else do
    let keys := (values.map hashing.valueIdentity).eraseDups
    let observed ← popObserved keys
    let prepared ← get
    let rows ← liftM (frontiers hashing store (appendRequests prepared root)
      (unreadKeys prepared observed keys))
    (Table.items rows.sequences).forM (adoptSequence hashing)
    let identities ← archive.prepareContent hashing objects store values
      (some (withObserved observed rows.contents))
    let slices ← appendLoop hashing store identities root.slices
    return ⟨archive.scopeId, archive.contentScope hashing, slices⟩

def positionsOf (previous : List Digest) : Table Digest (List Nat) :=
  previous.zipIdx.foldl (fun positions entry =>
    positions.insert entry.1 ((positions.lookup entry.1).getD [] ++ [entry.2])) ∅

/-- Old occurrences in increasing order, for the contents that have one left. -/
def selectLoop : Table Digest (List Nat) → Nat → List Digest → List (Option Nat)
  | _, _, [] => []
  | positions, cursor, identity :: rest =>
    match ((positions.lookup identity).getD []).dropWhile (· < cursor) with
    | [] => none :: selectLoop (positions.insert identity []) cursor rest
    | position :: later =>
      some position :: selectLoop (positions.insert identity later) (position + 1) rest

def runLength : Nat → List (Option Nat) → Nat
  | position, some next :: rest => if next = position then runLength (position + 1) rest + 1 else 0
  | _, _ => 0

def joinSlice (slices : List (ArchiveSlice Digest)) (span : ArchiveSlice Digest) :
    List (ArchiveSlice Digest) :=
  match slices.getLast? with
  | none => [span]
  | some old =>
    if joins : old.first = span.first ∧ old.count = span.count ∧ old.stop = span.start then
      slices.dropLast ++ [⟨old.first, old.count, old.start, span.stop, by
        have := old.ordered
        have := span.ordered
        omega⟩]
    else slices ++ [span]

def rewriteLoop [DecidableEq Raw] (baseline : ArchiveRoot Digest) :
    Nat → List ((String × Raw) × Option Nat) → ArchiveRoot Digest →
      Preparing Digest Payload (ArchiveRoot Digest)
  | 0, _, root => return root
  | _, [], root => return root
  | fuel + 1, (value, none) :: rest, root => do
    let fresh := rest.takeWhile fun entry => entry.2.isNone
    let root ← archive.prepareAppend hashing objects store root (value :: fresh.map Prod.fst)
    rewriteLoop baseline fuel (rest.drop fresh.length) root
  | fuel + 1, (_, some position) :: rest, root => do
    let length := runLength (position + 1) (rest.map Prod.snd)
    let part ← liftM (baseline.slice position (position + 1 + length))
    let slices := part.slices.foldl joinSlice root.slices
    rewriteLoop baseline fuel (rest.drop length)
      ⟨archive.scopeId, archive.contentScope hashing, slices⟩

def rewriteFrom [DecidableEq Raw] (baseline : ArchiveRoot Digest) (previous : List Digest)
    (values : List (String × Raw)) : Preparing Digest Payload (ArchiveRoot Digest) :=
  let selected := selectLoop (positionsOf previous) 0 (values.map hashing.valueIdentity)
  archive.rewriteLoop hashing objects store baseline values.length (values.zip selected)
    (archive.emptyRoot hashing)

def rewrite [DecidableEq Raw] (fuel : Nat) (baseline : ArchiveRoot Digest)
    (values : List (String × Raw)) (prepared : PreparedArchive Digest Payload) :
    Option (Except Raised (ArchiveRoot Digest) × PreparedArchive Digest Payload) :=
  match archive.bind prepared with
  | .error error => some (.error error, prepared)
  | .ok bound =>
    match archive.contentIds hashing fuel store baseline 0 none (some bound) with
    | none => none
    | some (.error error) => some (.error error, bound)
    | some (.ok (previous, resolved)) =>
      some (Action.runOn (archive.rewriteFrom hashing objects store baseline previous values)
        resolved)

def dependenciesOf (prepared : PreparedArchive Digest Payload) :
    Except Raised (List Digest × List Digest) := do
  let nodes ← (Table.items prepared.sequences).mapM fun record =>
    orRaise (prepared.nodes.lookup record.1) .integrity
  return (nodes.map ImmutableSequenceNode.contentId,
    nodes.flatMap fun node => node.left.toList ++ node.right.toList ++ node.nextForest.toList)

def Conflicts {ν : Type} (prepared stored : Table Digest ν) : Prop :=
  ∃ entry ∈ Table.items prepared, ∃ current ∈ stored.lookup entry.1, current ≠ entry.2

instance {ν : Type} [DecidableEq ν] (prepared stored : Table Digest ν) :
    Decidable (Conflicts prepared stored) :=
  inferInstanceAs (Decidable (∃ entry ∈ Table.items prepared, ∃ current ∈ stored.lookup entry.1,
    current ≠ entry.2))

def publish [DecidableEq Payload] (prepared : PreparedArchive Digest Payload) :
    Except Raised (ArchiveStore Digest Payload) × PreparedArchive Digest Payload :=
  let cleared := { prepared with observed := ∅ }
  match archive.bind cleared with
  | .error error => (.error error, cleared)
  | .ok bound =>
    (do
      let (contents, sequences) ← dependenciesOf bound
      refuse ((∃ identity ∈ contents, bound.contents.lookup identity = none ∧
          store.contents.lookup identity = none) ∨
        ∃ identity ∈ sequences, bound.sequences.lookup identity = none ∧
          store.sequences.lookup identity = none) .integrity
      refuse (Conflicts bound.sequences store.sequences ∨
        Conflicts bound.contents store.contents) .integrity
      return ⟨store.sequences ∪ bound.sequences, store.contents ∪ bound.contents⟩, bound)

end ContentArchive

open Library.SkewForest

variable {archive : ContentArchive} {hashing : Hashing Digest Raw Payload}
  {store : ArchiveStore Digest Payload} {before after middle : PreparedArchive Digest Payload}
  {identity contentId : Digest} {node : ImmutableSequenceNode Digest}

/-- The nodes that a preparation finds, in its own memory or in the store. -/
def knownIn (store : ArchiveStore Digest Payload) (prepared : PreparedArchive Digest Payload) :
    Known Digest :=
  fun identity => (prepared.nodes.lookup identity).or (store.sequences.lookup identity)

def storedIn (store : ArchiveStore Digest Payload) : Known Digest :=
  fun identity => store.sequences.lookup identity

def Addressed (hashing : Hashing Digest Raw Payload) (known : Known Digest) : Prop :=
  ∀ identity node, known identity = some node → hashing.hashNode node = identity

structure Genuine (hashing : Hashing Digest Raw Payload) (identity : Digest)
    (content : ContentRecord Digest Payload) : Prop where
  identity : hashing.contentIdentity content = identity
  made : ∃ objects raw, content.rawDigest = hashing.hashRaw raw ∧
    content.rawSize = hashing.rawSize raw ∧
      (content.compression, content.payload) = hashing.encodePayload objects raw

def AllGenuine (hashing : Hashing Digest Raw Payload)
    (contents : Table Digest (ContentRecord Digest Payload)) : Prop :=
  ∀ identity content, contents.lookup identity = some content → Genuine hashing identity content

def Closed (store : ArchiveStore Digest Payload) : Prop :=
  ∀ identity node, store.sequences.lookup identity = some node →
    (store.contents.lookup node.contentId).isSome = true ∧
      ∀ other ∈ node.left.toList ++ node.right.toList ++ node.nextForest.toList,
        (store.sequences.lookup other).isSome = true

structure StoreSound (hashing : Hashing Digest Raw Payload)
    (store : ArchiveStore Digest Payload) : Prop where
  addressed : Addressed hashing (storedIn store)
  genuine : AllGenuine hashing store.contents
  wellFormed : WellFormed (storedIn store)
  closed : Closed store

structure PreparedSound (archive : ContentArchive) (hashing : Hashing Digest Raw Payload)
    (store : ArchiveStore Digest Payload) (prepared : PreparedArchive Digest Payload) : Prop where
  owner : prepared.owner = none ∨ prepared.owner = some archive.owner
  addressed : Addressed hashing (knownIn store prepared)
  wellFormed : WellFormed (knownIn store prepared)
  recorded : Within (fun identity => prepared.sequences.lookup identity)
    fun identity => prepared.nodes.lookup identity
  published : ∀ identity node, prepared.nodes.lookup identity = some node →
    prepared.sequences.lookup identity = some node ∨ store.sequences.lookup identity = some node
  genuine : AllGenuine hashing prepared.contents
  observed : ∀ identity content, prepared.observed.lookup identity = some (some content) →
    Genuine hashing identity content

structure Grew (archive : ContentArchive) (hashing : Hashing Digest Raw Payload)
    (store : ArchiveStore Digest Payload) (before after : PreparedArchive Digest Payload) :
    Prop where
  sound : PreparedSound archive hashing store after
  within : Within (knownIn store before) (knownIn store after)

theorem Grew.refl (sound : PreparedSound archive hashing store before) :
    Grew archive hashing store before before :=
  ⟨sound, .refl⟩

theorem Grew.trans (first : Grew archive hashing store before middle)
    (second : Grew archive hashing store middle after) : Grew archive hashing store before after :=
  ⟨second.sound, first.within.trans second.within⟩

theorem PreparedSound.stored (collisionFree : hashing.CollisionFree)
    (storeSound : StoreSound hashing store) (sound : PreparedSound archive hashing store before) :
    Within (storedIn store) (knownIn store before) := by
  intro identity node found
  cases known : before.nodes.lookup identity with
  | none =>
    rw [knownIn, known, none_or]
    exact found
  | some other =>
    have here : knownIn store before identity = some other := by
      rw [knownIn, known, some_or]
    have same : other = node := by
      apply collisionFree.node
      rw [sound.addressed _ _ here, storeSound.addressed _ _ found]
    rw [here, same]

theorem PreparedSound.sources (collisionFree : hashing.CollisionFree)
    (storeSound : StoreSound hashing store) (sound : PreparedSound archive hashing store before) :
    Sources hashing (knownIn store before) before store where
  remembered := by
    intro identity node found
    dsimp only at found
    rw [knownIn, found, some_or]
  stored := sound.stored collisionFree storeSound
  split := by
    intro identity node found
    rw [knownIn, or_eq_some_iff] at found
    exact found.imp id And.right
  addressed := storeSound.addressed
  bodies := fun identity content found => (storeSound.genuine identity content found).identity
  preparedBodies := fun identity content found => (sound.genuine identity content found).identity

theorem PreparedSound.sameNodes (sound : PreparedSound archive hashing store before)
    (owner : after.owner = before.owner ∨ after.owner = some archive.owner)
    (nodes : after.nodes = before.nodes) (sequences : after.sequences = before.sequences)
    (genuine : AllGenuine hashing after.contents)
    (observed : ∀ identity content, after.observed.lookup identity = some (some content) →
      Genuine hashing identity content) : Grew archive hashing store before after := by
  have known : knownIn store after = knownIn store before := by
    funext identity
    rw [knownIn, knownIn, nodes]
  refine ⟨⟨?_, ?_, ?_, ?_, ?_, genuine, observed⟩, ?_⟩
  · cases owner with
    | inl same =>
      rw [same]
      exact sound.owner
    | inr own => exact .inr own
  · rw [known]
    exact sound.addressed
  · rw [known]
    exact sound.wellFormed
  · rw [nodes, sequences]
    exact sound.recorded
  · rw [nodes, sequences]
    exact sound.published
  · rw [known]
    exact .refl

theorem knownIn_withSequence :
    knownIn store (before.withSequence identity node) identity = some node := by
  rw [knownIn, PreparedArchive.withSequence, AList.lookup_insert, some_or]

theorem knownIn_withSequence_of_ne (different : other ≠ identity) :
    knownIn store (before.withSequence identity node) other = knownIn store before other := by
  rw [knownIn, knownIn, PreparedArchive.withSequence, AList.lookup_insert_ne different]

theorem PreparedSound.within_withSequence (collisionFree : hashing.CollisionFree)
    (sound : PreparedSound archive hashing store before)
    (addressed : hashing.hashNode node = identity) :
    Within (knownIn store before) (knownIn store (before.withSequence identity node)) := by
  intro other otherNode found
  by_cases here : other = identity
  case pos =>
    rw [here] at found
    have same : otherNode = node := by
      apply collisionFree.node
      rw [sound.addressed _ _ found, addressed]
    rw [here, knownIn_withSequence, same]
  case neg => rw [knownIn_withSequence_of_ne here, found]

theorem PreparedSound.withSequence (collisionFree : hashing.CollisionFree)
    (sound : PreparedSound archive hashing store before)
    (addressed : hashing.hashNode node = identity) (located : ∃ forest, Skew forest ∧
      ForestAt (knownIn store (before.withSequence identity node)) forest (some identity)) :
    Grew archive hashing store before (before.withSequence identity node) := by
  have within : Within (knownIn store before) (knownIn store (before.withSequence identity node)) :=
    sound.within_withSequence collisionFree addressed
  refine ⟨⟨sound.owner, ?_, ?_, ?_, ?_, sound.genuine, sound.observed⟩, within⟩
  · intro other otherNode found
    by_cases here : other = identity
    case pos =>
      rw [here, knownIn_withSequence, some.injEq] at found
      rw [here, ← found, addressed]
    case neg =>
      rw [knownIn_withSequence_of_ne here] at found
      exact sound.addressed other otherNode found
  · intro other otherNode found
    by_cases here : other = identity
    case pos =>
      rw [here]
      exact located
    case neg =>
      rw [knownIn_withSequence_of_ne here] at found
      obtain ⟨forest, skew, forestAt⟩ := sound.wellFormed other otherNode found
      exact ⟨forest, skew, forestAt.mono within⟩
  · intro other otherNode found
    dsimp only [PreparedArchive.withSequence] at found ⊢
    by_cases here : other = identity
    case pos =>
      rw [here, AList.lookup_insert] at found ⊢
      exact found
    case neg =>
      rw [AList.lookup_insert_ne here] at found ⊢
      exact sound.recorded other otherNode found
  · intro other otherNode found
    dsimp only [PreparedArchive.withSequence] at found ⊢
    by_cases here : other = identity
    case pos =>
      rw [here, AList.lookup_insert] at found ⊢
      exact .inl found
    case neg =>
      rw [AList.lookup_insert_ne here] at found ⊢
      exact sound.published other otherNode found

theorem knownIn_withNode (absent : before.nodes.lookup identity = none)
    (stored : store.sequences.lookup identity = some node) :
    knownIn store (before.withNode identity node) = knownIn store before := by
  funext other
  rw [knownIn, knownIn, PreparedArchive.withNode]
  by_cases here : other = identity
  case pos => rw [here, AList.lookup_insert, absent, stored, some_or, none_or]
  case neg => rw [AList.lookup_insert_ne here]

theorem PreparedSound.withNode (sound : PreparedSound archive hashing store before)
    (absent : before.nodes.lookup identity = none)
    (stored : store.sequences.lookup identity = some node) :
    Grew archive hashing store before (before.withNode identity node) := by
  have known := knownIn_withNode absent stored
  refine ⟨⟨sound.owner, ?_, ?_, ?_, ?_, sound.genuine, sound.observed⟩, ?_⟩
  · rw [known]
    exact sound.addressed
  · rw [known]
    exact sound.wellFormed
  · intro other otherNode found
    have earlier := sound.recorded other otherNode found
    dsimp only [PreparedArchive.withNode] at earlier ⊢
    have different : other ≠ identity := by
      intro same
      rw [same, absent] at earlier
      cases earlier
    rw [AList.lookup_insert_ne different]
    exact earlier
  · intro other otherNode found
    dsimp only [PreparedArchive.withNode] at found ⊢
    by_cases here : other = identity
    case pos =>
      rw [here, AList.lookup_insert] at found
      rw [here, ← found]
      exact .inr stored
    case neg =>
      rw [AList.lookup_insert_ne here] at found
      exact sound.published other otherNode found
  · rw [known]
    exact .refl

namespace ContentArchive

open Action

omit [DecidableEq Digest] in
theorem bind_eq_bound (owner : before.owner = none ∨ before.owner = some archive.owner) :
    archive.bind before = .ok { before with owner := some archive.owner } := by
  obtain ⟨found, sequences, contents, nodes, observed⟩ := before
  rw [ContentArchive.bind]
  cases owner with
  | inl none =>
    dsimp only at none
    rw [none]
  | inr own =>
    dsimp only at own
    rw [own]
    exact if_pos rfl

section

variable (sound : PreparedSound archive hashing store before)
include sound

theorem bound_grew :
    Grew archive hashing store before { before with owner := some archive.owner } :=
  sound.sameNodes (.inr rfl) rfl rfl sound.genuine sound.observed

theorem bindPrepared_ensures :
    Ensures True (Grew archive hashing store before)
      (archive.bindPrepared : Preparing Digest Payload Unit) before fun _ last =>
        last = { before with owner := some archive.owner } := by
  rw [bindPrepared]
  refine Ensures.bind_get (Ensures.bind (Ensures.lift_ok (bind_eq_bound sound.owner)
    (.refl sound)) ?_)
  intro bound middle _ same
  obtain ⟨rfl, rfl⟩ := same
  exact Ensures.update (bound_grew sound) rfl

end

theorem loadNode_ensures (storeSound : StoreSound hashing store)
    (sound : PreparedSound archive hashing store before)
    (found : knownIn store before identity = some node) :
    Ensures True (Grew archive hashing store before) (loadNode hashing store identity) before
      fun value last => value = node ∧ knownIn store last = knownIn store before := by
  rw [loadNode]
  apply Ensures.bind_get
  rw [knownIn] at found
  cases known : before.nodes.lookup identity with
  | some other =>
    rw [known, some_or, some.injEq] at found
    exact .pure (.refl sound) ⟨found, rfl⟩
  | none =>
    rw [known, none_or] at found
    refine Ensures.bind (Ensures.lift_ok (orRaise_eq_ok.mpr found) (.refl sound)) ?_
    intro record middle _ same
    obtain ⟨rfl, rfl⟩ := same
    refine Ensures.bind (Ensures.lift_ok
      (decodeNodeRecord_eq_ok (storeSound.addressed _ _ found)) (.refl sound)) ?_
    intro decoded middle _ same
    obtain ⟨rfl, rfl⟩ := same
    have updated : Ensures True (Grew archive hashing store middle)
        (modify fun prepared => prepared.withNode identity decoded :
          Preparing Digest Payload PUnit) middle fun _ last =>
            last = middle.withNode identity decoded :=
      .update (sound.withNode known found) rfl
    refine updated.bind ?_
    intro _ last grew same
    refine .pure grew ⟨rfl, ?_⟩
    rw [same, knownIn_withNode known found]

theorem loadOptional_ensures (storeSound : StoreSound hashing store)
    (sound : PreparedSound archive hashing store before)
    (located : ∀ identity, wanted = some identity → ∃ node,
      knownIn store before identity = some node) :
    Ensures True (Grew archive hashing store before) (loadOptional hashing store wanted) before
      fun value last => value = wanted.bind (knownIn store before) ∧
        knownIn store last = knownIn store before := by
  cases wanted with
  | none => exact .pure (.refl sound) ⟨rfl, rfl⟩
  | some identity =>
    obtain ⟨node, found⟩ := located identity rfl
    refine Ensures.map ((loadNode_ensures storeSound sound found).mono (fun _ grew => grew) ?_)
    intro value last _ result
    rw [result.1, Option.bind_some, found]
    exact ⟨rfl, result.2⟩

def extendedSlices (slices : List (ArchiveSlice Digest)) (identity : Digest) :
    List (ArchiveSlice Digest) :=
  match tailOf slices with
  | none => slices ++ [newestSlice identity 0]
  | some tail => slices.dropLast ++ [newestSlice identity tail.count]

omit [DecidableEq Digest] in
theorem related_concat {α β : Type} {relation : α → β → Prop} {left : List α} {last : α}
    {right : List β} (related : List.Forall₂ relation (left ++ [last]) right) :
    ∃ front back, right = front ++ [back] ∧ List.Forall₂ relation left front ∧
      relation last back := by
  induction left generalizing right with
  | nil =>
    cases related with
    | @cons _ back _ _ here rest =>
      cases rest
      exact ⟨[], back, rfl, .nil, here⟩
  | cons head tail ih =>
    cases related with
    | @cons _ first _ _ here rest =>
      obtain ⟨front, back, rfl, earlier, holds⟩ := ih rest
      exact ⟨first :: front, back, rfl, .cons here earlier, holds⟩

variable {slices : List (ArchiveSlice Digest)}

omit [DecidableEq Digest] in
theorem tailOf_eq_some (found : tailOf slices = some tail) :
    slices.dropLast ++ [tail] = slices ∧ tail.Whole := by
  rw [tailOf, filter_eq_some_iff] at found
  exact ⟨List.dropLast_append_getLast? tail found.1, of_decide_eq_true found.2⟩

variable {known : Known Digest}

omit [DecidableEq Digest] in
theorem newest_holds (skew : Skew forest) (located : ForestAt known forest (some identity))
    (counted : SkewForest.size forest = count + 1) :
    SliceHolds known (newestSlice identity count) (contentsOf forest) := by
  refine ⟨forest, ⟨skew, located, counted⟩, ?_⟩
  have all : (contentsOf forest).length ≤ count + 1 := by
    rw [length_contentsOf, counted]
  change contentsOf forest = ((contentsOf forest).take (count + 1)).drop 0
  rw [List.take_of_length_le all, List.drop_zero]

variable {parts : List (List Digest)}

omit [DecidableEq Digest] in
theorem exists_tail_forest (holds : List.Forall₂ (SliceHolds known) slices parts) :
    ∃ forest, Skew forest ∧ ForestAt known forest ((tailOf slices).map ArchiveSlice.first) ∧
      ∀ wider identity contentId, Within known wider →
        ForestAt wider (push (identity, contentId) forest) (some identity) →
          ∃ extended, List.Forall₂ (SliceHolds wider) (extendedSlices slices identity) extended ∧
            extended.flatten = parts.flatten ++ [contentId] := by
  cases tail_eq : tailOf slices with
  | none =>
    refine ⟨[], .nil, rfl, ?_⟩
    intro wider identity contentId within located
    have added := newest_holds Skew.nil.push located rfl
    refine ⟨parts ++ [[contentId]], ?_, by simp⟩
    rw [extendedSlices, tail_eq]
    exact List.rel_append (holds.imp fun _ _ held => held.mono within) (.cons added .nil)
  | some tail =>
    obtain ⟨split, start, stop⟩ := tailOf_eq_some tail_eq
    rw [← split] at holds
    obtain ⟨front, part, rfl, earlier, forest, stores, part_eq⟩ := related_concat holds
    refine ⟨forest, stores.skew, stores.located, ?_⟩
    intro wider identity contentId within located
    have counted : SkewForest.size (push (identity, contentId) forest) = tail.count + 1 := by
      rw [size_push, stores.counted]
    have added := newest_holds stores.skew.push located counted
    have whole : part = contentsOf forest := by
      rw [part_eq, start, stop, List.drop_zero, ← stores.counted, ← length_contentsOf,
        List.take_length]
    rw [contentsOf_push] at added
    refine ⟨front ++ [contentsOf forest ++ [contentId]], ?_, by simp [whole]⟩
    rw [extendedSlices, tail_eq]
    exact List.rel_append (earlier.imp fun _ _ held => held.mono within) (.cons added .nil)

omit [DecidableEq Digest] in
theorem tailOf_extended (slices : List (ArchiveSlice Digest)) (identity : Digest) :
    ∃ tail, tailOf (extendedSlices slices identity) = some tail := by
  rw [extendedSlices]
  cases tailOf slices with
  | none =>
    refine ⟨newestSlice identity 0, ?_⟩
    rw [tailOf, List.getLast?_concat]
    rfl
  | some tail =>
    refine ⟨newestSlice identity tail.count, ?_⟩
    dsimp only
    rw [tailOf, List.getLast?_concat, filter_some, if_pos]
    exact decide_eq_true ⟨rfl, rfl⟩

section

variable (collisionFree : hashing.CollisionFree)
include collisionFree

section

variable (storeSound : StoreSound hashing store)
include storeSound

section

variable (sound : PreparedSound archive hashing store before)
include sound

section

variable (holds : List.Forall₂ (SliceHolds (knownIn store before)) slices parts)
include holds

theorem appendOne_ensures :
    Ensures True (Grew archive hashing store before) (appendOne hashing store slices contentId)
      before fun result last => (∃ identity, result = extendedSlices slices identity) ∧
        ∃ extended, List.Forall₂ (SliceHolds (knownIn store last)) result extended ∧
          extended.flatten = parts.flatten ++ [contentId] := by
  obtain ⟨forest, skew, located, extends_⟩ := exists_tail_forest holds
  have firstKnown : ∀ identity, (tailOf slices).map ArchiveSlice.first = some identity →
      ∃ node, knownIn store before identity = some node := by
    intro identity same
    rw [same] at located
    cases forest with
    | nil => cases located
    | cons =>
      obtain ⟨named, _, node, found, _⟩ := located
      cases named
      exact ⟨node, found⟩
  have secondKnown : ∀ identity,
      (((tailOf slices).map ArchiveSlice.first).bind (knownIn store before)).bind
        ImmutableSequenceNode.nextForest = some identity →
          ∃ node, knownIn store before identity = some node := by
    intro identity same
    cases first : (tailOf slices).map ArchiveSlice.first with
    | none =>
      rw [first] at same
      cases same
    | some firstId =>
      rw [first] at located same
      cases forest with
      | nil => cases located
      | cons tree rest =>
        obtain ⟨named, _, node, found, further⟩ := located
        cases named
        rw [Option.bind_some, found, Option.bind_some] at same
        rw [same] at further
        cases rest with
        | nil => cases further
        | cons =>
          obtain ⟨next, _, secondNode, secondFound, _⟩ := further
          cases next
          exact ⟨secondNode, secondFound⟩
  obtain ⟨node, node_eq, pushes⟩ :=
    @appendedNode_eq_ok _ (knownIn store before) forest contentId _ skew located
  rw [appendOne]
  refine Ensures.bind (loadOptional_ensures storeSound sound firstKnown) ?_
  intro first one grewOne loadedOne
  obtain ⟨rfl, knownOne⟩ := loadedOne
  refine Ensures.bind (((loadOptional_ensures storeSound grewOne.sound (by
    rw [knownOne]
    exact secondKnown)).mono (fun _ grew => grewOne.trans grew) fun _ _ _ result => result)) ?_
  intro second two grewTwo loadedTwo
  obtain ⟨rfl, knownTwo⟩ := loadedTwo
  rw [knownOne] at knownTwo
  have node_ok : appendedNode contentId ((tailOf slices).map ArchiveSlice.first)
      (((tailOf slices).map ArchiveSlice.first).bind (knownIn store before))
      ((((tailOf slices).map ArchiveSlice.first).bind (knownIn store before)).bind
        ImmutableSequenceNode.nextForest |>.bind (knownIn store one)) = .ok node := by
    rw [knownOne, ← node_eq]
    congr 1
    cases ((tailOf slices).map ArchiveSlice.first).bind (knownIn store before) with
    | none => rfl
    | some first => rfl
  refine Ensures.bind (Ensures.lift_ok node_ok grewTwo) ?_
  intro made three _ same
  obtain ⟨rfl, rfl⟩ := same
  have wider : Within (knownIn store before)
      (knownIn store (three.withSequence (hashing.hashNode made) made)) := by
    rw [← knownTwo]
    exact grewTwo.sound.within_withSequence collisionFree rfl
  have located := pushes.located _ _ wider knownIn_withSequence
  have grown : Grew archive hashing store three (three.withSequence (hashing.hashNode made) made) :=
    grewTwo.sound.withSequence collisionFree rfl ⟨_, skew.push, located⟩
  have updated : Ensures True (Grew archive hashing store before)
      (modify fun prepared => prepared.withSequence (hashing.hashNode made) made :
        Preparing Digest Payload PUnit) three fun _ last =>
          last = three.withSequence (hashing.hashNode made) made :=
    .update (grewTwo.trans grown) rfl
  refine updated.bind ?_
  intro _ last grewLast same
  obtain ⟨extended, extendedHolds, contents⟩ := extends_ _ _ contentId wider located
  refine .pure grewLast ⟨⟨hashing.hashNode made, ?_⟩, extended, ?_, contents⟩
  · unfold extendedSlices
    cases tailOf slices with
    | none => rfl
    | some tail => rfl
  · rw [same]
    rw [extendedSlices] at extendedHolds
    cases tail_eq : tailOf slices with
    | none =>
      rw [tail_eq] at extendedHolds
      exact extendedHolds
    | some tail =>
      rw [tail_eq] at extendedHolds
      exact extendedHolds

theorem appendLoop_ensures :
    Ensures True (Grew archive hashing store before) (appendLoop hashing store contents slices)
      before fun result last =>
        (contents ≠ [] ∨ (tailOf slices).isSome = true → (tailOf result).isSome = true) ∧
        ∃ extended, List.Forall₂ (SliceHolds (knownIn store last)) result extended ∧
          extended.flatten = parts.flatten ++ contents := by
  induction contents generalizing before slices parts with
  | nil =>
    refine .pure (.refl sound) ⟨?_, parts, holds, by simp⟩
    intro some
    cases some with
    | inl none => exact absurd rfl none
    | inr tailed => exact tailed
  | cons contentId rest ih =>
    rw [appendLoop]
    refine Ensures.bind (appendOne_ensures collisionFree storeSound sound holds) ?_
    intro middleSlices one grew appended
    obtain ⟨⟨identity, shape⟩, middleParts, middleHolds, middleContents⟩ := appended
    refine (ih grew.sound middleHolds).mono (fun _ more => grew.trans more) ?_
    intro result last _ finished
    obtain ⟨tailed, extended, extendedHolds, extendedContents⟩ := finished
    refine ⟨fun _ => tailed (.inr ?_), extended, extendedHolds, ?_⟩
    · obtain ⟨tail, tail_eq⟩ := tailOf_extended slices identity
      rw [shape, tail_eq]
      rfl
    · rw [extendedContents, middleContents, List.append_assoc, List.singleton_append]

end

theorem append_ensures {root : ArchiveRoot Digest} {contents added : List Digest}
    (owned : archive.Owns hashing root) (holds : Holds (knownIn store before) root contents) :
    Ensures True (Grew archive hashing store before) (archive.append hashing store root added)
      before fun result last => archive.Owns hashing result ∧
        (added ≠ [] → (tailOf result.slices).isSome = true) ∧
        Holds (knownIn store last) result (contents ++ added) := by
  obtain ⟨parts, slices, rfl⟩ := holds
  rw [append]
  refine Ensures.bind (bindPrepared_ensures sound) ?_
  intro _ bound grew _
  refine Ensures.bind (Ensures.lift_ok (refuse_of_not (not_not.mpr owned)) grew) ?_
  intro _ same _ ran
  obtain ⟨_, rfl⟩ := ran
  refine Ensures.bind ((appendLoop_ensures collisionFree storeSound grew.sound
    (slices.imp fun _ _ held => held.mono grew.within)).mono (fun _ more => grew.trans more)
      fun _ _ _ result => result) ?_
  intro result last grown appended
  obtain ⟨tailed, extended, extendedHolds, contents_eq⟩ := appended
  exact .pure grown ⟨⟨rfl, rfl⟩, fun some => tailed (.inl some), extended, extendedHolds,
    contents_eq.symm⟩

end

end

end

end ContentArchive

end Linktools.Archive
