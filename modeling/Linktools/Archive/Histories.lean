import Linktools.Archive.System

namespace Linktools.Archive

open Library ContentArchive List

variable {Digest Raw Payload : Type} [DecidableEq Digest] [DecidableEq Raw] [DecidableEq Payload]
  {archive : ContentArchive} {hashing : Hashing Digest Raw Payload}
  {store : ArchiveStore Digest Payload} {given : Option (PreparedArchive Digest Payload)}
  {before after : PreparedArchive Digest Payload} {root : ArchiveRoot Digest}
  {state next last : ArchiveState Digest Payload} {index : Nat} {ids added : List Digest}
  {calls : List (ArchiveCall Digest Raw)}

omit [DecidableEq Raw] [DecidableEq Payload] in
theorem start_sound : ArchiveSound archive hashing
    (⟨⟨∅, ∅⟩, fun _ => {}, [archive.emptyRoot hashing]⟩ : ArchiveState Digest Payload) := by
  have stored : StoreSound hashing (⟨∅, ∅⟩ : ArchiveStore Digest Payload) :=
    ⟨nofun, nofun, nofun, nofun⟩
  refine ⟨stored, fun _ => stored.fresh, ?_⟩
  intro root member
  rw [mem_singleton.mp member]
  exact ⟨⟨rfl, rfl⟩, [], emptyRoot_holds⟩

theorem archive_sound (collisionFree : hashing.CollisionFree)
    (reachable : (archiveMachine archive hashing).Reachable state) :
    ArchiveSound archive hashing state := by
  refine reachable.invariant ?_ ?_
  · intro start initial
    rw [show start = _ from initial]
    exact start_sound
  · intro first call last _ sound step
    exact (archiveStep_sound collisionFree sound step).1

theorem archiveRun_extends (collisionFree : hashing.CollisionFree)
    (reachable : (archiveMachine archive hashing).Reachable state)
    (run : Machine.Run (archiveMachine archive hashing) state calls next) :
    Extends state.store next.store := by
  change (fun first last : ArchiveState Digest Payload => Extends first.store last.store) state next
  apply run.relates (fun _ => .refl) ?_ ?_ reachable
  · intro first middle last earlier later
    exact earlier.trans later
  · intro first call last reached step
    exact (archiveStep_sound collisionFree (archive_sound collisionFree reached) step).2

def Reads (archive : ContentArchive) (hashing : Hashing Digest Raw Payload)
    (store : ArchiveStore Digest Payload) (given : Option (PreparedArchive Digest Payload))
    (root : ArchiveRoot Digest) (contents : List Digest) : Prop :=
  ∃ fuel last, archive.contentIds hashing fuel store root 0 none given = some (.ok (contents, last))

omit [DecidableEq Raw] [DecidableEq Payload] in
theorem Reads.unique (reads : Reads archive hashing store given root ids)
    (again : Reads archive hashing store given root other) : ids = other := by
  obtain ⟨fuel, last, read⟩ := reads
  obtain ⟨more, otherLast, otherRead⟩ := again
  have same := (contentIds_more read (le_max_left fuel more)).symm.trans
    (contentIds_more otherRead (le_max_right fuel more))
  rw [Option.some.injEq, Except.ok.injEq, Prod.mk.injEq] at same
  exact same.1

omit [DecidableEq Raw] [DecidableEq Payload] in
theorem reads_of_holds (collisionFree : hashing.CollisionFree)
    (storeSound : StoreSound hashing store) (sound : PreparedSound archive hashing store before)
    (owned : archive.Owns hashing root) (holds : Holds (knownIn store before) root ids) :
    Reads archive hashing store (some before) root ids := by
  have given : PreparedSound archive hashing store ((some before).getD {}) := sound
  obtain ⟨enough, read⟩ := contentIds_whole collisionFree storeSound given owned holds
  obtain ⟨last, answered, _⟩ := read enough (le_refl _)
  exact ⟨enough, last, answered⟩

structure Appended (archive : ContentArchive) (hashing : Hashing Digest Raw Payload)
    (store : ArchiveStore Digest Payload) (after : PreparedArchive Digest Payload)
    (root : ArchiveRoot Digest) (ids added : List Digest) (result : ArchiveRoot Digest) : Prop where
  reads : Reads archive hashing store (some after) result (ids ++ added)
  count : result.count = root.count + added.length
  weights : ∀ slice ∈ result.slices,
    ChainWeights (knownIn store after) (forestWeights slice.count) (some slice.first)
  tail : added ≠ [] → ∃ tail, result.slices.getLast? = some tail ∧ tail.Whole

omit [DecidableEq Raw] [DecidableEq Payload] in
theorem appended_of_holds (collisionFree : hashing.CollisionFree)
    (storeSound : StoreSound hashing store) (holds : Holds (knownIn store before) root ids)
    (grew : Grew archive hashing store before after) (owned : archive.Owns hashing result)
    (tailed : added ≠ [] → (tailOf result.slices).isSome = true)
    (resultHolds : Holds (knownIn store after) result (ids ++ added)) :
    Appended archive hashing store after root ids added result where
  reads := reads_of_holds collisionFree storeSound grew.sound owned resultHolds
  count := by rw [← resultHolds.length, ← holds.length, length_append]
  weights := by
    obtain ⟨parts, slices, _⟩ := resultHolds
    intro slice member
    obtain ⟨part, _, forest, stores, _⟩ := exists_related slices member
    rw [← stores.counted, forestWeights_eq stores.skew]
    exact stores.located.chainWeights
  tail := by
    intro some
    obtain ⟨tail, found⟩ := Option.isSome_iff_exists.mp (tailed some)
    obtain ⟨front, whole⟩ := Option.filter_eq_some_iff.mp found
    exact ⟨tail, front, of_decide_eq_true whole⟩

/-- An append adds its contents after those of the root, of identities or of values. -/
theorem append_adds_contents (collisionFree : hashing.CollisionFree)
    (reachable : (archiveMachine archive hashing).Reachable state)
    (names : state.Names index root) :
    ∃ ids, Reads archive hashing state.store (some (state.prepareds index)) root ids ∧
      (∀ added, ∃ result after,
        Action.runOn (archive.append hashing state.store root added) (state.prepareds index) =
          (.ok result, after) ∧ Appended archive hashing state.store after root ids added result) ∧
      ∀ objects, ∀ values : List (String × Raw),
        (hashing.ReadsBack objects → (∀ value ∈ values, value.1 ≠ "") → ∃ result after,
          Action.runOn (archive.prepareAppend hashing objects state.store root values)
            (state.prepareds index) = (.ok result, after)) ∧
        ∀ result after, Action.runOn (archive.prepareAppend hashing objects state.store root
            values) (state.prepareds index) = (.ok result, after) →
          Appended archive hashing state.store after root ids
            (values.map hashing.valueIdentity) result := by
  have sound := archive_sound collisionFree reachable
  have prepared := sound.prepareds index
  obtain ⟨owned, ids, holds⟩ := sound.named collisionFree names
  refine ⟨ids, reads_of_holds collisionFree sound.store prepared owned holds, ?_, ?_⟩
  · intro added
    have appended := @append_ensures _ _ _ _ _ _ _ _ collisionFree sound.store prepared root ids
      added owned holds
    obtain ⟨result, ok⟩ := appended.returns trivial
    obtain ⟨resultOwned, tailed, resultHolds⟩ := appended.post result ok
    exact ⟨result, _, Prod.ext ok rfl, appended_of_holds collisionFree sound.store holds
      appended.kept resultOwned tailed resultHolds⟩
  · intro objects values
    have appended := @prepareAppend_ensures _ _ _ _ _ _ _ _ _ values objects collisionFree
      sound.store prepared root ids owned holds
    constructor
    · intro readsBack named
      obtain ⟨result, ok⟩ := appended.returns ⟨readsBack, named⟩
      exact ⟨result, _, Prod.ext ok rfl⟩
    · intro result after ran
      have post := appended.post result (congrArg Prod.fst ran)
      have kept := appended.kept
      rw [ran] at post kept
      obtain ⟨resultOwned, tailed, resultHolds⟩ := post
      refine appended_of_holds collisionFree sound.store holds kept resultOwned ?_ resultHolds
      exact fun some => tailed fun none => some (map_eq_nil_iff.mpr none)

inductive Symbol
  | absent
  | present (digest : Symbol)
  | node (contentId : Symbol) (treeCount : Nat) (left right nextForest : Symbol)
  | content (codec : String) (digest : Symbol)
  | scope (namespaceId tenantId : String)
  | body (raw : List Nat)
deriving DecidableEq

def Symbol.ofOption : Option Symbol → Symbol
  | none => .absent
  | some digest => .present digest

theorem Symbol.ofOption_injective : Function.Injective Symbol.ofOption := by
  intro left right same
  cases left <;> cases right <;> cases same <;> rfl

/-- Bodies are lists of blocks, of a kibibyte each; a payload is one of them, inline or as an
object. -/
def symbolicHashing : Hashing Symbol (List Nat) (Bool × List Nat) where
  hashNode node := .node node.contentId node.treeCount (.ofOption node.left)
    (.ofOption node.right) (.ofOption node.nextForest)
  hashContent := .content
  hashScope := .scope
  hashRaw := .body
  rawSize raw := 1024 * raw.length
  encodePayloadBytes raw := (.raw, raw)
  inlineBytes raw := (false, raw)
  objectBytes raw := (true, raw)
  decodePayload objects _ payload := if payload.1 && !objects then none else some payload.2

theorem symbolicHashing_collisionFree : symbolicHashing.CollisionFree where
  node := by
    intro left right same
    obtain ⟨contentId, treeCount, children, other, next⟩ := Symbol.node.inj same
    have left_eq := Symbol.ofOption_injective children
    have right_eq := Symbol.ofOption_injective other
    have next_eq := Symbol.ofOption_injective next
    cases left
    cases right
    dsimp only at contentId treeCount left_eq right_eq next_eq
    subst contentId treeCount left_eq right_eq next_eq
    rfl
  content _ _ _ _ same := Symbol.content.inj same
  raw _ _ same := Symbol.body.inj same

def sampleArchive : ContentArchive :=
  ⟨"scope", "namespace", "tenant", by decide⟩

def sampleStart : ArchiveState Symbol (Bool × List Nat) :=
  ⟨⟨∅, ∅⟩, fun _ => {}, [sampleArchive.emptyRoot symbolicHashing]⟩

theorem sampleStart_reachable : (archiveMachine sampleArchive symbolicHashing).Reachable
    sampleStart :=
  .of_initial rfl

theorem sampleStart_names : sampleStart.Names 0 (sampleArchive.emptyRoot symbolicHashing) :=
  ⟨mem_cons_self, nofun⟩

def sampleRoot : ArchiveRoot Symbol :=
  let oldest := Symbol.node (.body [1]) 1 .absent .absent .absent
  let middle := Symbol.node (.body [2]) 1 .absent .absent (.present oldest)
  ⟨"scope", .scope "namespace" "tenant",
    [⟨.node (.body [3]) 3 (.present middle) (.present oldest) .absent, 3, 0, 3, by decide⟩]⟩

def sampleAppended : ArchiveState Symbol (Bool × List Nat) :=
  sampleStart.settle 0 (Action.runOn (sampleArchive.append symbolicHashing sampleStart.store
    (sampleArchive.emptyRoot symbolicHashing) [.body [1], .body [2], .body [3]])
      (sampleStart.prepareds 0))

theorem sampleAppended_reachable : (archiveMachine sampleArchive symbolicHashing).Reachable
    sampleAppended :=
  sampleStart_reachable.step (.append sampleStart_names)

theorem sampleAppended_names : sampleAppended.Names 0 sampleRoot :=
  ⟨by decide +kernel, by
    rw [KnownTo]
    decide +kernel⟩

/-- Two more contents behind the three of an earlier append. -/
theorem sample_append_reads : ∃ result after,
    Action.runOn (sampleArchive.append symbolicHashing sampleAppended.store sampleRoot
      [.body [4], .body [5]]) (sampleAppended.prepareds 0) = (.ok result, after) ∧
    Reads sampleArchive symbolicHashing sampleAppended.store (some after) result
      [.body [1], .body [2], .body [3], .body [4], .body [5]] := by
  obtain ⟨ids, reads, appends, _⟩ :=
    append_adds_contents symbolicHashing_collisionFree sampleStart_reachable sampleStart_names
  have none : Reads sampleArchive symbolicHashing sampleStart.store
      (some (sampleStart.prepareds 0)) (sampleArchive.emptyRoot symbolicHashing) [] :=
    ⟨1, _, rfl⟩
  cases reads.unique none
  obtain ⟨result, after, ran, appended⟩ := appends [.body [1], .body [2], .body [3]]
  have built : (Action.runOn (sampleArchive.append symbolicHashing sampleStart.store
      (sampleArchive.emptyRoot symbolicHashing) [.body [1], .body [2], .body [3]])
        (sampleStart.prepareds 0)).1.toOption = some sampleRoot := by decide +kernel
  rw [ran] at built
  cases built
  have three : Reads sampleArchive symbolicHashing sampleAppended.store
      (some (sampleAppended.prepareds 0)) sampleRoot [.body [1], .body [2], .body [3]] := by
    have same : sampleAppended.prepareds 0 = after := congrArg Prod.snd ran
    rw [same]
    exact appended.reads
  obtain ⟨others, reads, appends, _⟩ :=
    append_adds_contents symbolicHashing_collisionFree sampleAppended_reachable sampleAppended_names
  cases reads.unique three
  obtain ⟨result, after, ran, appended⟩ := appends [.body [4], .body [5]]
  exact ⟨result, after, ran, appended.reads⟩

/-- A slice of a root reads as the same positions, and many roots read as each alone. -/
theorem slices_read_positions (collisionFree : hashing.CollisionFree)
    (reachable : (archiveMachine archive hashing).Reachable state) :
    (∀ root, state.Names index root → ∃ ids,
      Reads archive hashing state.store (some (state.prepareds index)) root ids ∧
      ids.length = root.count ∧
      ∀ start stop, start ≤ stop → stop ≤ root.count → ∃ part, root.slice start stop = .ok part ∧
        Reads archive hashing state.store (some (state.prepareds index)) part
          ((ids.take stop).drop start) ∧
        ∀ next, ArchiveStep archive hashing state (.slice root start stop) next →
          next.Names index part) ∧
    ∀ roots, (∀ root ∈ roots, state.Names index root) → ∃ contents fuel last,
      archive.contentIdsMany hashing fuel state.store roots (some (state.prepareds index)) =
        some (.ok (contents, last)) ∧
      List.Forall₂ (Reads archive hashing state.store (some (state.prepareds index))) roots
        contents := by
  have sound := archive_sound collisionFree reachable
  have prepared := sound.prepareds index
  constructor
  · intro root names
    obtain ⟨owned, ids, holds⟩ := sound.named collisionFree names
    refine ⟨ids, reads_of_holds collisionFree sound.store prepared owned holds, holds.length, ?_⟩
    intro start stop ordered within
    obtain ⟨part, cut, scope, contentScope, partHolds⟩ := holds.slice ordered within
    refine ⟨part, cut, ?_, ?_⟩
    · exact reads_of_holds collisionFree sound.store
        prepared ⟨scope.trans owned.1, contentScope.trans owned.2⟩ partHolds
    · intro next step
      cases step with
      | slice _ same =>
        rw [cut, Except.ok.injEq] at same
        subst same
        exact ⟨mem_cons_self, partHolds.knownTo⟩
  · intro roots names
    obtain ⟨contents, holds⟩ := sound.all_hold collisionFree names
    have owned : ∀ root ∈ roots, archive.Owns hashing root :=
      fun root member => (sound.named collisionFree (names root member)).1
    have given : PreparedSound archive hashing state.store
        ((some (state.prepareds index)).getD {}) := prepared
    obtain ⟨enough, resolved⟩ := contentIdsMany_spec collisionFree sound.store given owned holds
    obtain ⟨last, answered, _⟩ := resolved enough (le_refl _)
    refine ⟨contents, enough, last, answered, ?_⟩
    clear answered resolved
    induction holds with
    | nil => exact .nil
    | @cons root contents rest _ here _ ih =>
      refine .cons ?_ (ih (fun other member => names other (mem_cons_of_mem _ member))
        fun other member => owned other (mem_cons_of_mem _ member))
      exact reads_of_holds collisionFree sound.store prepared (owned root mem_cons_self) here

theorem sample_slice_reads : ∃ ids part, Reads sampleArchive symbolicHashing sampleAppended.store
      (some (sampleAppended.prepareds 0)) sampleRoot ids ∧ sampleRoot.slice 1 3 = .ok part ∧
    Reads sampleArchive symbolicHashing sampleAppended.store
      (some (sampleAppended.prepareds 0)) part ((ids.take 3).drop 1) := by
  obtain ⟨ids, reads, _, slices⟩ := (slices_read_positions symbolicHashing_collisionFree
    sampleAppended_reachable).1 sampleRoot sampleAppended_names
  obtain ⟨part, cut, partReads, _⟩ := slices 1 3 (by decide) (by decide)
  exact ⟨ids, part, reads, cut, partReads⟩

def Resolvable (archive : ContentArchive) (hashing : Hashing Digest Raw Payload)
    (store : ArchiveStore Digest Payload) (root : ArchiveRoot Digest) (contents : List Digest) :
    Prop :=
  ∃ fuel ranges, archive.resolveRanges hashing fuel (some store) [root] {} true =
      some (.ok (some ranges)) ∧ ranges.groups = [contents] ∧
    ∀ content ∈ contents, ∃ record, ranges.records.lookup content = some record ∧
      hashing.contentIdentity record = content

omit [DecidableEq Raw] [DecidableEq Payload] in
theorem resolvable_of_holds (collisionFree : hashing.CollisionFree)
    (storeSound : StoreSound hashing store) (owned : archive.Owns hashing root)
    (holds : Holds (storedIn store) root ids) : Resolvable archive hashing store root ids := by
  have all : List.Forall₂ (Holds (knownIn store {})) [root] [ids] := by
    rw [knownIn_empty]
    exact .cons holds .nil
  have readable : Readable (knownIn store ({} : PreparedArchive Digest Payload))
      { owner := some archive.owner } store := by
    rw [knownIn_empty]
    intro identity node found
    exact .inr ⟨found, (storeSound.closed identity node found).1⟩
  have each : ∀ other ∈ [root], archive.Owns hashing other := by
    intro other member
    rw [mem_singleton.mp member]
    exact owned
  obtain ⟨enough, resolved⟩ := resolve_spec collisionFree storeSound storeSound.fresh each all
    fun _ : true = true => readable
  cases resolved enough (some store) (le_refl _) (.inr rfl) with
  | inl undecided => cases undecided.1
  | inr decided =>
    obtain ⟨ranges, answered, resolves⟩ := decided
    refine ⟨enough, ranges, answered, resolves.groups, ?_⟩
    intro content member
    exact resolves.records rfl content (mem_flatten_of_mem mem_cons_self member)

/-- What a stored node names is stored, a record never replaces another, and a root that its
preparation knew when it was published resolves from then on. -/
theorem published_roots_resolve (collisionFree : hashing.CollisionFree)
    (reachable : (archiveMachine archive hashing).Reachable state) : Closed state.store ∧
    (∀ index next, Conflicts (state.prepareds index).sequences state.store.sequences ∨
        Conflicts (state.prepareds index).contents state.store.contents →
      (∃ error, (archive.publish state.store (state.prepareds index)).1 = .error error) ∧
        (ArchiveStep archive hashing state (.publish index) next → next.store = state.store)) ∧
    ∀ index stored root next calls last,
      (archive.publish state.store (state.prepareds index)).1 = .ok stored →
      state.Names index root → ArchiveStep archive hashing state (.publish index) next →
      Machine.Run (archiveMachine archive hashing) next calls last →
      ∃ ids, Reads archive hashing state.store (some (state.prepareds index)) root ids ∧
        Resolvable archive hashing last.store root ids := by
  have sound := archive_sound collisionFree reachable
  refine ⟨sound.store.closed, ?_, ?_⟩
  · intro index next conflict
    obtain ⟨error, raised⟩ := publish_raises (sound.prepareds index).owner conflict
    refine ⟨⟨error, raised⟩, ?_⟩
    intro step
    cases step with
    | publish =>
      dsimp only
      rw [raised]
      rfl
  · intro index stored root next calls last committed names step run
    have published := publish_eq_ok (sound.prepareds index).owner committed
    have afterwards : (archiveMachine archive hashing).Reachable next := reachable.step step
    have extended := archiveRun_extends collisionFree afterwards run
    have sound_last := archive_sound collisionFree (afterwards.run run)
    have stored_eq : next.store = stored := by
      cases step with
      | publish =>
        dsimp only
        rw [committed]
        rfl
    obtain ⟨owned, ids, holds⟩ := sound.named collisionFree names
    refine ⟨ids, reads_of_holds collisionFree sound.store (sound.prepareds index) owned holds, ?_⟩
    rw [stored_eq] at extended
    exact resolvable_of_holds collisionFree sound_last.store owned
      ((holds.mono (published.known (sound.prepareds index))).mono extended.sequences)

/-- A body that is large enough for an object, and a small one. -/
def sampleValues : List (String × List Nat) :=
  [("text", replicate 16 1), ("text", [2])]

def sampleWritten (state : ArchiveState Symbol (Bool × List Nat)) (index : Nat) (objects : Bool) :
    ArchiveState Symbol (Bool × List Nat) :=
  state.settle index (Action.runOn (sampleArchive.prepareAppend symbolicHashing objects
    state.store (sampleArchive.emptyRoot symbolicHashing) sampleValues) (state.prepareds index))

/-- The same values, prepared without an object store and with one. -/
def sampleBoth : ArchiveState Symbol (Bool × List Nat) :=
  sampleWritten (sampleWritten sampleStart 0 false) 1 true

theorem sampleBoth_reachable : (archiveMachine sampleArchive symbolicHashing).Reachable
    sampleBoth := by
  have first : (archiveMachine sampleArchive symbolicHashing).Reachable
      (sampleWritten sampleStart 0 false) :=
    sampleStart_reachable.step (.prepareAppend sampleStart_names)
  refine first.step (.prepareAppend ⟨?_, nofun⟩)
  exact mem_append_right _ mem_cons_self

/-- The first publication resolves, and the second one finds another record and raises. -/
theorem sample_publication_resolves : ∃ root stored ids published error,
    root ∈ sampleBoth.roots ∧ root.count = 2 ∧
    (sampleArchive.publish sampleBoth.store (sampleBoth.prepareds 0)).1 = .ok stored ∧
    ArchiveStep sampleArchive symbolicHashing sampleBoth (.publish 0) published ∧
    Resolvable sampleArchive symbolicHashing published.store root ids ∧
    (sampleArchive.publish published.store (published.prepareds 1)).1 = .error error ∧
    ∀ next, ArchiveStep sampleArchive symbolicHashing published (.publish 1) next →
      next.store = published.store := by
  have committed : (sampleArchive.publish sampleBoth.store
      (sampleBoth.prepareds 0)).1.toOption.isSome = true := by
    decide +kernel
  obtain ⟨stored, found⟩ := Option.isSome_iff_exists.mp committed
  have outcome := toOption_eq_some.mp found
  obtain ⟨root, member, count, known⟩ : ∃ root ∈ sampleBoth.roots, root.count = 2 ∧
      ∀ slice ∈ root.slices,
        (knownIn sampleBoth.store (sampleBoth.prepareds 0) slice.first).isSome = true := by
    decide +kernel
  have step : ArchiveStep sampleArchive symbolicHashing sampleBoth (.publish 0) _ := .publish
  obtain ⟨ids, _, resolvable⟩ := (published_roots_resolve symbolicHashing_collisionFree
    sampleBoth_reachable).2.2 0 stored root _ [] _ outcome ⟨member, known⟩ step (.nil _)
  have conflict : Conflicts (sampleBoth.prepareds 1).contents
      (((sampleArchive.publish sampleBoth.store (sampleBoth.prepareds 0)).1.toOption).getD
        sampleBoth.store).contents := by
    decide +kernel
  have refused := (published_roots_resolve symbolicHashing_collisionFree
    (sampleBoth_reachable.step step)).2.1 1
  obtain ⟨error, raised⟩ := (refused sampleBoth (.inr conflict)).1
  exact ⟨root, stored, ids, _, error, member, count, outcome, step, resolvable, raised,
    fun next => (refused next (.inr conflict)).2⟩

end Linktools.Archive
