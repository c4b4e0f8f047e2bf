import Linktools.Core.Value
import Linktools.Library.Checked
import Linktools.Library.Overlay
import Linktools.Library.SkewForest
import Mathlib.Data.List.Induction

namespace Linktools.Archive

open Linktools.Core Library List

/-! The immutable records of a content archive. A slice of a root names the newest node of a
forest and counts its positions from the oldest. -/

variable {Digest Raw Payload : Type}

structure ArchiveSlice (Digest : Type) where
  first : Digest
  count : Nat
  start : Nat
  stop : Nat
  ordered : start < stop ∧ stop ≤ count
deriving DecidableEq

namespace ArchiveSlice

def size (slice : ArchiveSlice Digest) : Nat :=
  slice.stop - slice.start

/-- A slice of all positions of its forest, to which an append may add. -/
def Whole (slice : ArchiveSlice Digest) : Prop :=
  slice.start = 0 ∧ slice.stop = slice.count

instance (slice : ArchiveSlice Digest) : Decidable slice.Whole :=
  inferInstanceAs (Decidable (_ ∧ _))

end ArchiveSlice

structure ArchiveRoot (Digest : Type) where
  scopeId : String
  contentScope : Digest
  slices : List (ArchiveSlice Digest) := []
deriving DecidableEq

namespace ArchiveRoot

def count (root : ArchiveRoot Digest) : Nat :=
  (root.slices.map ArchiveSlice.size).sum

def sliceLoop (start stop : Nat) : Nat → List (ArchiveSlice Digest) → List (ArchiveSlice Digest)
  | _, [] => []
  | offset, item :: rest =>
    let size := item.stop - item.start
    let low := start - offset
    let high := min size (stop - offset)
    let kept : List (ArchiveSlice Digest) :=
      if inside : low < high then
        [⟨item.first, item.count, item.start + low, item.start + high, by
          have := item.ordered
          omega⟩]
      else []
    if stop ≤ offset + size then kept else kept ++ sliceLoop start stop (offset + size) rest

def slice (root : ArchiveRoot Digest) (start stop : Nat) : Except Raised (ArchiveRoot Digest) :=
  if start ≤ stop ∧ stop ≤ root.count then
    .ok ⟨root.scopeId, root.contentScope, sliceLoop start stop 0 root.slices⟩
  else .error .integrity

end ArchiveRoot

/-- The number of items of a perfect tree, and children exactly when there is more than
one item. -/
def NodeShape (treeCount : Nat) (left right : Option Digest) : Prop :=
  1 ≤ treeCount ∧ treeCount &&& (treeCount + 1) = 0 ∧ left.isNone = right.isNone ∧
    decide (treeCount = 1) = left.isNone

instance (treeCount : Nat) (left right : Option Digest) :
    Decidable (NodeShape treeCount left right) :=
  inferInstanceAs (Decidable (_ ∧ _))

structure ImmutableSequenceNode (Digest : Type) where
  contentId : Digest
  treeCount : Nat
  left : Option Digest
  right : Option Digest
  nextForest : Option Digest
  shape : NodeShape treeCount left right
deriving DecidableEq

namespace ImmutableSequenceNode

def build (contentId : Digest) (treeCount : Nat) (left right nextForest : Option Digest) :
    Except Raised (ImmutableSequenceNode Digest) :=
  if shape : NodeShape treeCount left right then
    .ok ⟨contentId, treeCount, left, right, nextForest, shape⟩
  else .error .integrity

theorem shape_leaf : NodeShape 1 (none : Option Digest) none := by
  refine ⟨le_refl 1, by decide, rfl, rfl⟩

def leaf (contentId : Digest) (nextForest : Option Digest) : ImmutableSequenceNode Digest :=
  ⟨contentId, 1, none, none, nextForest, shape_leaf⟩

end ImmutableSequenceNode

inductive Compression
  | raw
  | zlib
deriving DecidableEq

structure ContentRecord (Digest Payload : Type) where
  codec : String
  rawDigest : Digest
  rawSize : Nat
  compression : Compression
  payload : Payload
  named : codec ≠ ""
deriving DecidableEq

/-- The functions that an archive takes from outside: its digests, the compression of one body,
and its storing inline or as an object, which the payload stands for. -/
structure Hashing (Digest Raw Payload : Type) where
  hashNode : ImmutableSequenceNode Digest → Digest
  hashContent : String → Digest → Digest
  hashScope : String → String → Digest
  hashRaw : Raw → Digest
  rawSize : Raw → Nat
  encodePayloadBytes : Raw → Compression × Raw
  inlineBytes : Raw → Payload
  objectBytes : Raw → Payload
  decodePayload : Bool → Compression → Payload → Option Raw

def payloadCompressMinimum : Nat := 16 * 1024

namespace Hashing

variable (hashing : Hashing Digest Raw Payload)

structure CollisionFree : Prop where
  node : Function.Injective hashing.hashNode
  content : ∀ codec codec' digest digest',
    hashing.hashContent codec digest = hashing.hashContent codec' digest' →
      codec = codec' ∧ digest = digest'
  raw : Function.Injective hashing.hashRaw

/-- The payload of a new body; `objects` says whether the archive has an object store. -/
def encodePayload (objects : Bool) (raw : Raw) : Compression × Payload :=
  let (compression, encoded) := hashing.encodePayloadBytes raw
  (compression, if objects = false ∨ hashing.rawSize raw < payloadCompressMinimum then
    hashing.inlineBytes encoded else hashing.objectBytes encoded)

def ReadsBack (objects : Bool) : Prop :=
  ∀ made raw, hashing.decodePayload objects (hashing.encodePayload made raw).1
    (hashing.encodePayload made raw).2 = some raw

def contentIdentity (content : ContentRecord Digest Payload) : Digest :=
  hashing.hashContent content.codec content.rawDigest

def valueIdentity (value : String × Raw) : Digest :=
  hashing.hashContent value.1 (hashing.hashRaw value.2)

def readContent [DecidableEq Digest] (objects : Bool) (content : ContentRecord Digest Payload) :
    Except Raised Raw :=
  match hashing.decodePayload objects content.compression content.payload with
  | none => .error .integrity
  | some raw =>
    if hashing.rawSize raw = content.rawSize ∧ hashing.hashRaw raw = content.rawDigest then
      .ok raw
    else .error .integrity

end Hashing

abbrev Owner := String × String × String

/-- The records of an archive in a state store, each kind under its identities. -/
structure ArchiveStore (Digest Payload : Type) where
  sequences : Table Digest (ImmutableSequenceNode Digest) := ∅
  contents : Table Digest (ContentRecord Digest Payload) := ∅

structure PreparedArchive (Digest Payload : Type) where
  owner : Option Owner := none
  sequences : Table Digest (ImmutableSequenceNode Digest) := ∅
  contents : Table Digest (ContentRecord Digest Payload) := ∅
  nodes : Table Digest (ImmutableSequenceNode Digest) := ∅
  observed : Table Digest (Option (ContentRecord Digest Payload)) := ∅

/-- The sizes of the trees of a forest, the largest that fits taken first. -/
def greedyWeights : Nat → Nat → List Nat
  | 0, _ => []
  | fuel + 1, count =>
    if count = 0 then []
    else
      let size := (1 <<< (count + 1).log2) - 1
      size :: greedyWeights fuel (count - size)

def forestWeights (count : Nat) : List Nat :=
  (greedyWeights count count).reverse

structure ContentArchive where
  scopeId : String
  namespaceId : String
  tenantId : String
  named : scopeId ≠ ""

namespace ContentArchive

variable (archive : ContentArchive) (hashing : Hashing Digest Raw Payload)

def owner : Owner :=
  (archive.scopeId, archive.namespaceId, archive.tenantId)

def contentScope : Digest :=
  hashing.hashScope archive.namespaceId archive.tenantId

def emptyRoot : ArchiveRoot Digest :=
  ⟨archive.scopeId, archive.contentScope hashing, []⟩

def Owns (root : ArchiveRoot Digest) : Prop :=
  root.scopeId = archive.scopeId ∧ root.contentScope = archive.contentScope hashing

instance [DecidableEq Digest] (root : ArchiveRoot Digest) : Decidable (archive.Owns hashing root) :=
  inferInstanceAs (Decidable (_ ∧ _))

def requireOwned [DecidableEq Digest] (root : ArchiveRoot Digest) : Except Raised Unit :=
  refuse (¬archive.Owns hashing root) .integrity

def bind (prepared : PreparedArchive Digest Payload) :
    Except Raised (PreparedArchive Digest Payload) :=
  match prepared.owner with
  | none => .ok { prepared with owner := some archive.owner }
  | some owner => if owner = archive.owner then .ok prepared else .error .integrity

def decodeNodeRecord [DecidableEq Digest] (identity : Digest)
    (node : ImmutableSequenceNode Digest) : Except Raised (ImmutableSequenceNode Digest) :=
  if hashing.hashNode node = identity then .ok node else .error .integrity

end ContentArchive

section

open SkewForest

variable {α : Type*} {forest : List (SkewTree α)}

theorem greedyWeights_eq (increasing : Increasing sizes) (powers : ∀ size ∈ sizes, AllOnes size)
    (enough : sizes.sum ≤ fuel) : greedyWeights fuel sizes.sum = sizes.reverse := by
  induction fuel generalizing sizes with
  | zero =>
    cases sizes with
    | nil => rfl
    | cons first rest =>
      have positive := (powers first mem_cons_self).pos
      rw [sum_cons] at enough
      omega
  | succ fuel ih =>
    cases sizes using reverseRecOn with
    | nil => rfl
    | append_singleton init last =>
      have nonempty : init ++ [last] ≠ [] := by simp
      have largest_eq := increasing.getLast_eq_largest powers nonempty
      have lastPos := (powers last (by simp)).pos
      rw [getLast_append_singleton, largest, ← Nat.one_shiftLeft] at largest_eq
      rw [sum_append, sum_singleton] at enough largest_eq
      have rest := ih increasing.init
        (fun size member => powers size (mem_append_left _ member)) (by omega)
      have some : ¬init.sum + last = 0 := by omega
      rw [sum_append, sum_singleton, greedyWeights, if_neg some, ← largest_eq]
      dsimp only
      rw [Nat.add_sub_cancel, rest, reverse_append, reverse_singleton,
        singleton_append]

theorem forestWeights_eq (skew : Skew forest) :
    forestWeights (SkewForest.size forest) = forest.map SkewTree.size := by
  have powers : ∀ size ∈ forest.map SkewTree.size, AllOnes size := by
    intro size member
    obtain ⟨tree, inside, rfl⟩ := mem_map.mp member
    exact (skew.perfect tree inside).size_succ
  rw [forestWeights, SkewForest.size, greedyWeights_eq skew.increasing powers (le_refl _),
    reverse_reverse]

end

/-! The resolution of many ranges at once.  Nodes already known are visited first; the
others are read together, each with the neighbours that the ranges will need. -/

variable [DecidableEq Digest]

structure RangeNode (Digest : Type) where
  span : Nat
  identity : Digest
  offset : Nat
  size : Nat
  forestPosition : Option Nat
  expand : Bool := true
deriving DecidableEq

inductive ArchiveNodeSlot
  | self
  | left
  | right
  | next
deriving DecidableEq

/-- A request for a node and, by slots, for the records and the contents around it. -/
structure ArchiveNodeRead (Digest : Type) where
  identity : Digest
  metadataSlots : List ArchiveNodeSlot
  contentSlots : List ArchiveNodeSlot

namespace ArchiveNodeRead

def build (identity : Digest) (metadataSlots contentSlots : List ArchiveNodeSlot) :
    ArchiveNodeRead Digest :=
  ⟨identity, metadataSlots ++ contentSlots ++ [.self], contentSlots⟩

def join (read previous : ArchiveNodeRead Digest) : ArchiveNodeRead Digest :=
  build read.identity (read.metadataSlots ++ previous.metadataSlots)
    (read.contentSlots ++ previous.contentSlots)

end ArchiveNodeRead

def nodeSlots (hashing : Hashing Digest Raw Payload) (node : ImmutableSequenceNode Digest) :
    List (ArchiveNodeSlot × Digest) :=
  [(.self, hashing.hashNode node)] ++ (node.left.map fun identity => (.left, identity)).toList ++
    (node.right.map fun identity => (.right, identity)).toList ++
    (node.nextForest.map fun identity => (.next, identity)).toList

def slotsIn (wanted : List ArchiveNodeSlot) (slots : List (ArchiveNodeSlot × Digest)) :
    List Digest :=
  (slots.filter fun slot => slot.1 ∈ wanted).map Prod.snd

namespace ContentArchive

variable (archive : ContentArchive) (hashing : Hashing Digest Raw Payload)

/-- The related identities, and those whose contents are wanted, of one request. -/
def relatedOf (rows : Table Digest (ImmutableSequenceNode Digest))
    (request : ArchiveNodeRead Digest) : Except Raised (List Digest × List Digest) :=
  match rows.lookup request.identity with
  | none => .ok ([], [])
  | some record => do
    let node ← decodeNodeRecord hashing request.identity record
    let slots := nodeSlots hashing node
    return (slotsIn (request.metadataSlots ++ request.contentSlots) slots,
      slotsIn request.contentSlots slots)

def bodyOf (rows : Table Digest (ImmutableSequenceNode Digest)) (identity : Digest) :
    Except Raised (List Digest) :=
  match rows.lookup identity with
  | none => .ok []
  | some record => do
    let node ← decodeNodeRecord hashing identity record
    return [node.contentId]

/-- The rows of some requests, of the records related to them, and of some contents. -/
def frontiers (store : ArchiveStore Digest Payload) (requests : List (ArchiveNodeRead Digest))
    (contentKeys : List Digest) : Except Raised (ArchiveStore Digest Payload) := do
  let rows := Table.restrict store.sequences (requests.map ArchiveNodeRead.identity)
  let related ← requests.mapM (relatedOf hashing rows)
  let rows := Table.restrict store.sequences
    (requests.map ArchiveNodeRead.identity ++ related.flatMap Prod.fst)
  let bodies ← (related.flatMap Prod.snd).mapM (bodyOf hashing rows)
  return ⟨rows, Table.restrict store.contents (contentKeys ++ bodies.flatten)⟩

def decodeContentRow (row : Digest × ContentRecord Digest Payload) : Except Raised Unit :=
  refuse (hashing.contentIdentity row.2 ≠ row.1) .integrity

def decodeNodeRow (row : Digest × ImmutableSequenceNode Digest) : Except Raised Unit := do
  let _ ← decodeNodeRecord hashing row.1 row.2
  return ()

end ContentArchive

structure Resolution (Digest Payload : Type) where
  nodes : Table Digest (ImmutableSequenceNode Digest) := ∅
  contents : Table Digest (ContentRecord Digest Payload) := ∅
  queue : List (RangeNode Digest)
  pending : List (RangeNode Digest) := []
  bodyPending : List Digest := []
  processed : List (RangeNode Digest) := []
  matched : Table (Nat × Nat) Digest := ∅

section

variable (spans : List (ArchiveSlice Digest))

def weightsOf (span : Nat) : List Nat :=
  (spans.map fun slice => forestWeights slice.count).getD span []

def rangeOf (span : Nat) : Nat × Nat :=
  (spans.map fun slice => (slice.count - slice.stop, slice.count - slice.start)).getD span (0, 0)

def intersects (low high offset size : Nat) : Bool :=
  decide (offset < high ∧ low < offset + size)

def RangeNode.expands (job : RangeNode Digest) : Bool :=
  job.expand && intersects (rangeOf spans job.span).1 (rangeOf spans job.span).2 job.offset job.size

def RangeNode.wanted (job : RangeNode Digest) : Bool :=
  decide ((rangeOf spans job.span).1 ≤ job.offset ∧ job.offset < (rangeOf spans job.span).2)

def startQueue : List (RangeNode Digest) :=
  spans.zipIdx.map fun entry =>
    ⟨entry.2, entry.1.first, 0, (weightsOf spans entry.2).headD 0, some 0, true⟩

/-- The tree after this one, which must be there exactly when the weights name one. -/
def followingOf (job : RangeNode Digest) (node : ImmutableSequenceNode Digest) :
    Except Raised (List (RangeNode Digest)) :=
  match job.forestPosition with
  | none => .ok []
  | some position =>
    match (weightsOf spans job.span)[position + 1]?, node.nextForest with
    | some weight, some next =>
      .ok [⟨job.span, next, job.offset + job.size, weight, some (position + 1), true⟩]
    | some _, none => .error .integrity
    | none, some _ => .error .integrity
    | none, none => .ok []

def childJob (job : RangeNode Digest) (identity : Digest) (offset childSize : Nat) :
    RangeNode Digest :=
  ⟨job.span, identity, offset, childSize, none,
    intersects (rangeOf spans job.span).1 (rangeOf spans job.span).2 offset childSize⟩

def childrenOf (job : RangeNode Digest) (node : ImmutableSequenceNode Digest) :
    Except Raised (List (RangeNode Digest)) :=
  if 1 < job.size then
    let childSize := (job.size - 1) / 2
    match node.left, node.right with
    | some left, some right =>
      .ok [childJob spans job left (job.offset + 1) childSize,
        childJob spans job right (job.offset + 1 + childSize) childSize]
    | _, _ => .error .integrity
  else .ok []

variable (includeContent : Bool)

/-- Record the content of a wanted item, which no node may give twice. -/
def recordMatch (job : RangeNode Digest) (node : ImmutableSequenceNode Digest)
    (state : Resolution Digest Payload) : Except Raised (Resolution Digest Payload) :=
  let position := (job.span, job.offset - (rangeOf spans job.span).1)
  if job.wanted spans then do
    refuse ((state.matched.lookup position).isSome) .integrity
    return { state with
      matched := state.matched.insert position node.contentId
      bodyPending :=
        if includeContent = true ∧ (state.contents.lookup node.contentId).isNone then
          state.bodyPending.insert job.identity
        else state.bodyPending }
  else return state

def visit (job : RangeNode Digest) (node : ImmutableSequenceNode Digest)
    (state : Resolution Digest Payload) : Except Raised (Resolution Digest Payload) := do
  refuse (node.treeCount ≠ job.size) .integrity
  let following ← followingOf spans job node
  let state := { state with
    nodes := state.nodes.insert job.identity node
    processed := job :: state.processed
    queue := state.queue ++ following }
  if job.expands spans then do
    let state ← recordMatch spans includeContent job node state
    let children ← childrenOf spans job node
    return { state with queue := state.queue ++ children }
  else return state

/-- What is read for a job: its node, the children and the next tree when the job will go
on to them, and the contents of those that are wanted. -/
def jobRead (job : RangeNode Digest) : ArchiveNodeRead Digest :=
  let range := rangeOf spans job.span
  let inside := fun offset => decide (range.1 ≤ offset ∧ offset < range.2)
  let childSize := (job.size - 1) / 2
  let descends := job.expands spans && decide (1 < job.size)
  let continues := job.forestPosition.any fun position =>
    decide (position + 1 < (weightsOf spans job.span).length)
  let slot := fun (condition : Bool) (slot : ArchiveNodeSlot) =>
    if condition then [slot] else []
  let metadata := [.self] ++ slot descends .left ++ slot descends .right ++ slot continues .next
  let body := slot (job.expands spans && inside job.offset) .self ++
    slot (descends && inside (job.offset + 1)) .left ++
    slot (descends && inside (job.offset + 1 + childSize)) .right ++
    slot (continues && inside (job.offset + job.size)) .next
  .build job.identity metadata (if includeContent then body else [])

def bodyRead (identity : Digest) : ArchiveNodeRead Digest :=
  .build identity [] [.self]

def addRequest (requests : Table Digest (ArchiveNodeRead Digest)) (read : ArchiveNodeRead Digest) :
    Table Digest (ArchiveNodeRead Digest) :=
  match requests.lookup read.identity with
  | none => requests.insert read.identity read
  | some previous => requests.insert read.identity (read.join previous)

def requestsOf (state : Resolution Digest Payload) : Table Digest (ArchiveNodeRead Digest) :=
  (state.pending.map (jobRead spans includeContent) ++ state.bodyPending.map bodyRead).foldl
    addRequest ∅

variable (hashing : Hashing Digest Raw Payload) (prepared : PreparedArchive Digest Payload)

/-- The content of a visited node, taken from the prepared records when they have it. -/
def adoptPrepared (nodes : Table Digest (ImmutableSequenceNode Digest))
    (contents : Table Digest (ContentRecord Digest Payload)) (identity : Digest) :
    Except Raised (Table Digest (ContentRecord Digest Payload)) := do
  let node ← orRaise (nodes.lookup identity) .integrity
  match prepared.contents.lookup node.contentId with
  | none => return contents
  | some content => do
    refuse (hashing.contentIdentity content ≠ node.contentId) .integrity
    return contents.insert node.contentId content

def fetch (store : ArchiveStore Digest Payload) (state : Resolution Digest Payload) :
    Except Raised (Resolution Digest Payload) := do
  let requests := (Table.items (requestsOf spans includeContent state)).map Prod.snd
  let rows ← ContentArchive.frontiers hashing store requests []
  (Table.items rows.sequences).forM (ContentArchive.decodeNodeRow hashing)
  (Table.items rows.contents).forM (ContentArchive.decodeContentRow hashing)
  let nodes := rows.sequences ∪ state.nodes
  let contents ← state.bodyPending.foldlM (adoptPrepared hashing prepared nodes)
    (rows.contents ∪ state.contents)
  refuse (∃ job ∈ state.pending, nodes.lookup job.identity = none) .integrity
  refuse (∃ identity ∈ state.bodyPending, ∀ node ∈ nodes.lookup identity,
    contents.lookup node.contentId = none) .integrity
  return { state with
    nodes := nodes
    contents := contents
    queue := state.queue ++ state.pending
    pending := []
    bodyPending := [] }

def knownNode (state : Resolution Digest Payload) (identity : Digest) :
    Option (ImmutableSequenceNode Digest) :=
  (state.nodes.lookup identity).or (prepared.nodes.lookup identity)

/-- The loop.  Without a store it stops at the first record that it would have to read. -/
def resolveLoop (store : Option (ArchiveStore Digest Payload)) :
    Nat → Resolution Digest Payload → Option (Except Raised (Option (Resolution Digest Payload)))
  | 0, _ => none
  | fuel + 1, state =>
    match state.queue with
    | job :: rest =>
      if job ∈ state.processed then resolveLoop store fuel { state with queue := rest }
      else
        match knownNode prepared state job.identity with
        | none =>
          resolveLoop store fuel
            { state with queue := rest, pending := state.pending ++ [job] }
        | some node =>
          match visit spans includeContent job node { state with queue := rest } with
          | .error error => some (.error error)
          | .ok next => resolveLoop store fuel next
    | [] =>
      if state.pending = [] ∧ state.bodyPending = [] then some (.ok (some state))
      else
        match store with
        | none => some (.ok none)
        | some rows =>
          match fetch spans includeContent hashing prepared rows state with
          | .error error => some (.error error)
          | .ok next => resolveLoop store fuel next

end

/-- The contents of a span, oldest first, once every position is matched. -/
def groupOf (matched : Table (Nat × Nat) Digest) (index : Nat) (slice : ArchiveSlice Digest) :
    Except Raised (List Digest) := do
  let group ← (List.range (slice.stop - slice.start)).mapM fun position =>
    orRaise (matched.lookup (index, position)) .integrity
  return group.reverse

def regroup : List (ArchiveRoot Digest) → List (List Digest) → List (List Digest)
  | [], _ => []
  | root :: rest, groups =>
    (groups.take root.slices.length).flatten :: regroup rest (groups.drop root.slices.length)

structure ResolvedRanges (Digest Payload : Type) where
  groups : List (List Digest)
  records : Table Digest (ContentRecord Digest Payload)
  prepared : PreparedArchive Digest Payload

namespace ContentArchive

variable (archive : ContentArchive) (hashing : Hashing Digest Raw Payload)

def resolveRanges (fuel : Nat) (store : Option (ArchiveStore Digest Payload))
    (roots : List (ArchiveRoot Digest)) (prepared : PreparedArchive Digest Payload)
    (includeContent : Bool) : Option (Except Raised (Option (ResolvedRanges Digest Payload))) :=
  match archive.bind prepared, roots.forM (archive.requireOwned hashing) with
  | .error error, _ => some (.error error)
  | .ok _, .error error => some (.error error)
  | .ok bound, .ok _ =>
    let spans := roots.flatMap ArchiveRoot.slices
    match resolveLoop spans includeContent hashing bound store fuel
        { queue := startQueue spans } with
    | none => none
    | some (.error error) => some (.error error)
    | some (.ok none) => some (.ok none)
    | some (.ok (some state)) => some do
        let groups ← spans.zipIdx.mapM fun entry => groupOf state.matched entry.2 entry.1
        let byRoot := regroup roots groups
        return some ⟨byRoot,
          if includeContent then Table.restrict state.contents byRoot.flatten else ∅,
          { bound with nodes := state.nodes ∪ bound.nodes }⟩

/-- The contents of some roots.  What a preparation knows is tried alone first. -/
def contentIdsMany (fuel : Nat) (store : ArchiveStore Digest Payload)
    (roots : List (ArchiveRoot Digest)) (prepared : Option (PreparedArchive Digest Payload)) :
    Option (Except Raised (List (List Digest) × PreparedArchive Digest Payload)) :=
  let given := prepared.getD {}
  let answer := fun (resolved : Option (Except Raised (Option (ResolvedRanges Digest Payload)))) =>
    resolved.map fun outcome => do
      let ranges ← orRaise (← outcome) .integrity
      return (ranges.groups, ranges.prepared)
  if prepared.isSome = true ∨ roots = [] then
    match archive.resolveRanges hashing fuel none roots given false with
    | some (.ok none) =>
      answer (archive.resolveRanges hashing fuel (some store) roots given false)
    | resolved => answer resolved
  else answer (archive.resolveRanges hashing fuel (some store) roots given false)

def contentIds (fuel : Nat) (store : ArchiveStore Digest Payload) (root : ArchiveRoot Digest)
    (start : Nat) (stop : Option Nat) (prepared : Option (PreparedArchive Digest Payload)) :
    Option (Except Raised (List Digest × PreparedArchive Digest Payload)) :=
  match root.slice start (stop.getD root.count) with
  | .error error => some (.error error)
  | .ok selected =>
    (archive.contentIdsMany hashing fuel store [selected] prepared).map fun outcome => do
      let answer ← outcome
      return (answer.1.headD [], answer.2)

end ContentArchive

end Linktools.Archive
