import Linktools.Core.Json
import Linktools.Library.Checked
import Linktools.Library.LeafTrees
import Linktools.Library.Slices

/-! Message snapshots: sequences of encoded messages in a forest of shared trees, with the
slices and joins of lists. -/

namespace Linktools.Transcript

open Linktools.Core Library List

abbrev Payload := List UInt8

abbrev MessageTree := LeafTree Payload

inductive SnapshotError
  | codec (text : String)
  | valueError (text : String)
  | indexError (index : Int)

/-- What the snapshots use of the messages: their JSON form, their restored form, equality as the
SDK compares them, and SHA-256. -/
structure MessageCodec (Message : Type) where
  floatText : Rat → String
  encodeMessage : Message → Except SnapshotError JsonValue
  decodeModelMessages : Payload → Except SnapshotError (List Message)
  same : Message → Message → Bool
  sha256 : Payload → String

variable {Message : Type} (codec : MessageCodec Message)

namespace MessageCodec

def encodeModelMessages (messages : List Message) : Except SnapshotError Payload := do
  let wire ← messages.mapM codec.encodeMessage
  return canonicalJsonBytes codec.floatText (.arr wire)

def restore (payload : Payload) : Except SnapshotError Message := do
  let messages ← codec.decodeModelMessages payload
  orRaise messages.head? (.indexError 0)

def freeze (message : Message) : Except SnapshotError Message := do
  let payload ← codec.encodeModelMessages [message]
  codec.restore payload

end MessageCodec

structure MessageSnapshot where
  roots : List MessageTree

namespace MessageSnapshot

def payloads (snapshot : MessageSnapshot) : List Payload :=
  LeafTree.drain snapshot.roots

def length (snapshot : MessageSnapshot) : Nat :=
  LeafTree.forestCount snapshot.roots

def equals (left right : MessageSnapshot) : Bool :=
  left.roots = right.roots ||
    (left.length == right.length &&
      (left.payloads.zip right.payloads).all fun pair => pair.1 == pair.2)

def allSame : List Payload → List Message → Except SnapshotError Bool
  | payload :: payloads, other :: others => do
    let message ← codec.restore payload
    if codec.same message other then allSame payloads others else return false
  | _, _ => return true

def equalsSequence (snapshot : MessageSnapshot) (other : List Message) :
    Except SnapshotError Bool :=
  if snapshot.length = other.length then allSame codec snapshot.payloads other else return false

def digestFrom : Nat → List Payload → Payload → Nat → Payload × Nat
  | _, [], hashed, size => (hashed, size)
  | index, payload :: payloads, hashed, size =>
    let fragment := (payload.drop 1).dropLast
    if index = 0 then
      digestFrom (index + 1) payloads (hashed ++ fragment) (size + fragment.length)
    else
      digestFrom (index + 1) payloads (hashed ++ utf8 "," ++ fragment)
        (size + 1 + fragment.length)

def encodedDigest (snapshot : MessageSnapshot) : String × Nat :=
  let (hashed, size) := digestFrom 0 snapshot.payloads (utf8 "[") 2
  (codec.sha256 (hashed ++ utf8 "]"), size)

def iterate (snapshot : MessageSnapshot) : Except SnapshotError (List Message) :=
  snapshot.payloads.mapM codec.restore

def leaf (snapshot : MessageSnapshot) (index : Int) : Except SnapshotError Payload :=
  let index := if index < 0 then index + snapshot.length else index
  if 0 ≤ index ∧ index < snapshot.length then
    orRaise (LeafTree.forestAt snapshot.roots index.toNat) (.indexError index)
  else .error (.indexError index)

def item (snapshot : MessageSnapshot) (index : Int) : Except SnapshotError Message := do
  let payload ← snapshot.leaf index
  codec.restore payload

def slice (snapshot : MessageSnapshot) (bounds : Slice) : Except SnapshotError MessageSnapshot :=
  match bounds.indices snapshot.length with
  | none => .error (.valueError "slice step cannot be zero")
  | some (start, stop, step) =>
    if step ≠ 1 then do
      let leaves ← (rangeOf start stop step).mapM snapshot.leaf
      return ⟨leaves.map .leaf⟩
    else
      return ⟨LeafTree.cutForest start.toNat (max start stop).toNat snapshot.roots 0⟩

end MessageSnapshot

structure MessageArchive where
  leaves : Payload → Option MessageTree
  branches : MessageTree × MessageTree → Option MessageTree
  leaf_right : ∀ payload node, leaves payload = some node → node = .leaf payload
  branch_right : ∀ left right node, branches (left, right) = some node → node = .branch left right

namespace MessageArchive

def storeLeaf (archive : MessageArchive) (payload : Payload) : MessageArchive where
  leaves := Function.update archive.leaves payload (some (.leaf payload))
  branches := archive.branches
  leaf_right := by
    intro other node found
    by_cases same : other = payload
    case pos =>
      rw [same, Function.update_self] at found
      rw [same, Option.some.inj found]
    case neg =>
      rw [Function.update_of_ne same] at found
      exact archive.leaf_right other node found
  branch_right := archive.branch_right

def storeBranch (archive : MessageArchive) (left right : MessageTree) : MessageArchive where
  leaves := archive.leaves
  branches := Function.update archive.branches (left, right) (some (.branch left right))
  leaf_right := archive.leaf_right
  branch_right := by
    intro otherLeft otherRight node found
    by_cases same : (otherLeft, otherRight) = (left, right)
    case pos =>
      obtain ⟨rfl, rfl⟩ := Prod.mk.inj same
      rw [Function.update_self] at found
      exact (Option.some.inj found).symm
    case neg =>
      rw [Function.update_of_ne same] at found
      exact archive.branch_right otherLeft otherRight node found

def leafNode (archive : MessageArchive) (payload : Payload) : MessageTree × MessageArchive :=
  match archive.leaves payload with
  | some node => (node, archive)
  | none => (.leaf payload, archive.storeLeaf payload)

def branchNode (archive : MessageArchive) (left right : MessageTree) :
    MessageTree × MessageArchive :=
  match archive.branches (left, right) with
  | some node => (node, archive)
  | none => (.branch left right, archive.storeBranch left right)

def merge (archive : MessageArchive) : List MessageTree → MessageTree →
    List MessageTree × MessageArchive
  | [], node => ([node], archive)
  | left :: roots, node =>
    if left.count = node.count then
      let joined := archive.branchNode left node
      joined.2.merge roots joined.1
    else (node :: left :: roots, archive)

def grow (archive : MessageArchive) (roots : List MessageTree) :
    List Message → Except SnapshotError (List MessageTree × MessageArchive)
  | [] => return (roots, archive)
  | message :: messages => do
    let payload ← codec.encodeModelMessages [message]
    let stored := archive.leafNode payload
    let merged := stored.2.merge roots stored.1
    merged.2.grow merged.1 messages

def snapshot (archive : MessageArchive) (messages : List Message) :
    Except SnapshotError (MessageSnapshot × MessageArchive) := do
  let (roots, archive) ← archive.grow codec [] messages
  return (⟨roots.reverse⟩, archive)

def concatenate (groups : List MessageSnapshot) : MessageSnapshot :=
  ⟨groups.flatMap MessageSnapshot.roots⟩

end MessageArchive

inductive Expression (Message : Type)
  | snapshot (archive : MessageArchive) (messages : List Message)
  | concatenate (groups : List (Expression Message))
  | slice (operand : Expression Message) (bounds : Slice)

namespace Expression

mutual
def evaluate : Expression Message → Except SnapshotError MessageSnapshot
  | snapshot archive messages => Prod.fst <$> archive.snapshot codec messages
  | concatenate groups => MessageArchive.concatenate <$> evaluateAll groups
  | slice operand bounds => do
    let operand ← evaluate operand
    operand.slice bounds

def evaluateAll : List (Expression Message) → Except SnapshotError (List MessageSnapshot)
  | [] => return []
  | group :: groups => do
    let first ← evaluate group
    let rest ← evaluateAll groups
    return first :: rest
end

mutual
def listed : Expression Message → Except SnapshotError (List Message)
  | snapshot _ messages => return messages
  | concatenate groups => listedAll groups
  | slice operand bounds => do
    let messages ← listed operand
    orRaise (bounds.select messages) (.valueError "slice step cannot be zero")

def listedAll : List (Expression Message) → Except SnapshotError (List Message)
  | [] => return []
  | group :: groups => do
    let first ← listed group
    let rest ← listedAll groups
    return first ++ rest
end

mutual
def given : Expression Message → List Message
  | snapshot _ messages => messages
  | concatenate groups => givenAll groups
  | slice operand _ => given operand

def givenAll : List (Expression Message) → List Message
  | [] => []
  | group :: groups => given group ++ givenAll groups
end

end Expression

def Encodes (payload : Payload) (message : Message) : Prop :=
  codec.encodeModelMessages [message] = .ok payload

def Holds (snapshot : MessageSnapshot) (messages : List Message) : Prop :=
  List.Forall₂ (Encodes codec) snapshot.payloads messages

variable {codec} {snapshot other : MessageSnapshot} {messages others : List Message}
variable {payload : Payload} {message : Message}

theorem MessageSnapshot.payloads_eq (snapshot : MessageSnapshot) :
    snapshot.payloads = LeafTree.forestLeaves snapshot.roots :=
  LeafTree.drain_eq_forestLeaves snapshot.roots

theorem MessageSnapshot.length_eq (snapshot : MessageSnapshot) :
    snapshot.length = snapshot.payloads.length := by
  rw [payloads_eq, LeafTree.length_forestLeaves]
  rfl

theorem Holds.length_eq (holds : Holds codec snapshot messages) :
    snapshot.length = messages.length := by
  rw [MessageSnapshot.length_eq]
  exact List.Forall₂.length_eq holds

theorem encodes_iff : Encodes codec payload message ↔
      ∃ wire, codec.encodeMessage message = .ok wire ∧
        payload = utf8 "[" ++ canonicalJsonBytes codec.floatText wire ++ utf8 "]" := by
  unfold Encodes MessageCodec.encodeModelMessages
  simp only [mapM_cons, mapM_nil, bind_eq_ok, pure_eq_ok]
  constructor
  · rintro ⟨wires, ⟨wire, encoded, rest, rfl, rfl⟩, rfl⟩
    exact ⟨wire, encoded, canonicalJsonBytes_single codec.floatText wire⟩
  · rintro ⟨wire, encoded, rfl⟩
    exact ⟨[wire], ⟨wire, encoded, [], rfl, rfl⟩, canonicalJsonBytes_single codec.floatText wire⟩

theorem restore_of_encodes (encodes : Encodes codec payload message) :
    codec.restore payload = codec.freeze message := by
  rw [MessageCodec.freeze, encodes]
  rfl

section

variable (archive : MessageArchive)
include archive

theorem MessageArchive.leafNode_fst (payload : Payload) :
    (archive.leafNode payload).1 = .leaf payload := by
  unfold leafNode
  split
  case h_1 node found => exact archive.leaf_right payload node found
  case h_2 => rfl

theorem MessageArchive.branchNode_fst (left right : MessageTree) :
    (archive.branchNode left right).1 = .branch left right := by
  unfold branchNode
  split
  case h_1 node found => exact archive.branch_right left right node found
  case h_2 => rfl

theorem MessageArchive.merge_leaves (roots : List MessageTree)
    (node : MessageTree) : LeafTree.forestLeaves (archive.merge roots node).1.reverse =
      LeafTree.forestLeaves roots.reverse ++ node.leaves := by
  induction roots generalizing archive node with
  | nil => simp [merge]
  | cons left roots induction =>
    unfold merge
    split
    case isFalse => simp
    case isTrue =>
      rw [induction, branchNode_fst, LeafTree.leaves, reverse_cons,
        LeafTree.forestLeaves_append, LeafTree.forestLeaves_cons, LeafTree.forestLeaves_nil,
        append_nil, append_assoc]

end

variable {archive grown : MessageArchive}

theorem MessageArchive.grow_leaves
    (ends : archive.grow codec roots messages = .ok (result, grown)) :
    ∃ payloads, List.Forall₂ (Encodes codec) payloads messages ∧
      LeafTree.forestLeaves result.reverse = LeafTree.forestLeaves roots.reverse ++ payloads := by
  induction messages generalizing archive roots with
  | nil =>
    obtain ⟨rfl, -⟩ := Prod.mk.inj (pure_eq_ok.mp ends)
    exact ⟨[], .nil, (append_nil _).symm⟩
  | cons message messages induction =>
    obtain ⟨payload, encoded, rest⟩ := bind_eq_ok.mp ends
    obtain ⟨payloads, others, leaves⟩ := induction rest
    refine ⟨payload :: payloads, .cons encoded others, ?_⟩
    rw [leaves, merge_leaves, leafNode_fst, LeafTree.leaves, append_assoc,
      singleton_append]

theorem holds_snapshot (ends : archive.snapshot codec messages = .ok (snapshot, grown)) :
    Holds codec snapshot messages := by
  obtain ⟨⟨roots, _⟩, grows, same⟩ := bind_eq_ok.mp ends
  obtain ⟨rfl, -⟩ := Prod.mk.inj (pure_eq_ok.mp same)
  obtain ⟨payloads, encoded, leaves⟩ := MessageArchive.grow_leaves grows
  rw [Holds, MessageSnapshot.payloads_eq, leaves]
  exact encoded

variable {raised : SnapshotError}

theorem MessageArchive.grow_error (ends : archive.grow codec roots messages = .error raised) :
    ∃ message ∈ messages, codec.encodeModelMessages [message] = .error raised := by
  induction messages generalizing archive roots with
  | nil => exact absurd ends (by simp [grow, pure, Except.pure])
  | cons message messages induction =>
    rcases bind_eq_error.mp ends with unencodable | ⟨payload, encoded, rest⟩
    · exact ⟨message, mem_cons_self, unencodable⟩
    · obtain ⟨other, member, unencodable⟩ := induction rest
      exact ⟨other, mem_cons_of_mem _ member, unencodable⟩

theorem MessageArchive.snapshot_error (ends : archive.snapshot codec messages = .error raised) :
    ∃ message ∈ messages, codec.encodeModelMessages [message] = .error raised := by
  rcases bind_eq_error.mp ends with grows | ⟨_, _, impossible⟩
  · exact grow_error grows
  · cases impossible

theorem holds_nil : Holds codec (MessageArchive.concatenate []) [] := by
  rw [Holds, MessageSnapshot.payloads_eq]
  exact .nil

theorem Holds.concatenate (first : Holds codec snapshot messages)
    (rest : Holds codec (MessageArchive.concatenate groups) others) :
    Holds codec (MessageArchive.concatenate (snapshot :: groups)) (messages ++ others) := by
  rw [Holds, MessageSnapshot.payloads_eq] at first rest ⊢
  rw [MessageArchive.concatenate, flatMap_cons, LeafTree.forestLeaves_append]
  exact rel_append first rest

theorem Holds.getElem? (holds : Holds codec snapshot messages) (index : Nat) :
    (snapshot.payloads[index]? = none ∧ messages[index]? = none) ∨
      ∃ payload message, snapshot.payloads[index]? = some payload ∧
        messages[index]? = some message ∧ Encodes codec payload message := by
  by_cases inside : index < snapshot.payloads.length
  case pos =>
    have alsoInside : index < messages.length := by
      rw [← holds.length_eq, MessageSnapshot.length_eq]
      exact inside
    exact .inr ⟨_, _, getElem?_eq_getElem inside, getElem?_eq_getElem alsoInside,
      List.Forall₂.get holds inside alsoInside⟩
  case neg =>
    have alsoOutside : messages.length ≤ index := by
      rw [← holds.length_eq, MessageSnapshot.length_eq]
      exact Nat.le_of_not_lt inside
    exact .inl ⟨getElem?_eq_none (Nat.le_of_not_lt inside), getElem?_eq_none alsoOutside⟩

/-- The element that a list has at an index, which counts from the end when it is negative. -/
def listItem (messages : List Message) (index : Int) : Except SnapshotError Message :=
  let index := if index < 0 then index + messages.length else index
  if 0 ≤ index then orRaise messages[index.toNat]? (.indexError index)
  else .error (.indexError index)

theorem Holds.item_eq (holds : Holds codec snapshot messages) (index : Int) :
    snapshot.item codec index = listItem messages index >>= codec.freeze := by
  unfold MessageSnapshot.item MessageSnapshot.leaf listItem
  dsimp only
  rw [holds.length_eq, LeafTree.forestAt_eq, ← MessageSnapshot.payloads_eq]
  generalize (if index < 0 then index + (messages.length : Int) else index) = place
  by_cases start : 0 ≤ place
  case neg =>
    rw [if_neg (fun both => start both.1), if_neg start]
    rfl
  case pos =>
    rw [if_pos start]
    rcases holds.getElem? place.toNat with
      ⟨missing, none⟩ | ⟨payload, message, found, given, encodes⟩
    · have outside := getElem?_eq_none_iff.mp none
      rw [if_neg (by omega), none]
      rfl
    · have inside := (List.getElem?_eq_some_iff.mp given).1
      rw [if_pos (by omega), found, given]
      exact restore_of_encodes encodes

theorem Holds.iterate_eq (holds : Holds codec snapshot messages) :
    snapshot.iterate codec = messages.mapM codec.freeze := by
  unfold MessageSnapshot.iterate
  unfold Holds at holds
  generalize snapshot.payloads = payloads at holds
  induction holds with
  | nil => rfl
  | cons encodes _ induction =>
    rw [mapM_cons, mapM_cons, restore_of_encodes encodes, induction]

theorem equal_items_iff (left right : List Payload) :
    (left.length == right.length && (left.zip right).all fun pair => pair.1 == pair.2) = true ↔
      left = right := by
  induction left generalizing right with
  | nil => cases right <;> simp
  | cons first left induction =>
    cases right with
    | nil => simp
    | cons second right =>
      have rest := induction right
      simp only [Bool.and_eq_true, beq_iff_eq] at rest
      simp only [length_cons, zip_cons_cons, all_cons, Bool.and_eq_true,
        beq_iff_eq, List.cons.injEq, Nat.add_right_cancel_iff, ← rest]
      exact and_left_comm

theorem Holds.equals_iff (holds : Holds codec snapshot messages)
    (otherHolds : Holds codec other others) : snapshot.equals other = true ↔
      messages.map (fun message => codec.encodeModelMessages [message]) =
        others.map fun message => codec.encodeModelMessages [message] := by
  have encoded : ∀ {payloads : List Payload} {messages : List Message},
      List.Forall₂ (Encodes codec) payloads messages →
        messages.map (fun message => codec.encodeModelMessages [message]) =
          payloads.map Except.ok := by
    intro payloads messages all
    induction all with
    | nil => rfl
    | cons first _ induction => rw [map_cons, map_cons, first, induction]
  rw [encoded holds, encoded otherHolds,
    map_inj_right (fun left right same => Except.ok.inj same)]
  unfold MessageSnapshot.equals
  rw [MessageSnapshot.length_eq, MessageSnapshot.length_eq, Bool.or_eq_true_iff,
    equal_items_iff, decide_eq_true_iff]
  constructor
  · rintro (shared | same)
    · rw [MessageSnapshot.payloads_eq, MessageSnapshot.payloads_eq, shared]
    · exact same
  · exact .inr

def allFrozenSame (codec : MessageCodec Message) :
    List Message → List Message → Except SnapshotError Bool
  | message :: messages, other :: others => do
    let kept ← codec.freeze message
    if codec.same kept other then allFrozenSame codec messages others else return false
  | _, _ => return true

theorem allSame_eq (holds : List.Forall₂ (Encodes codec) payloads messages)
    (others : List Message) :
    MessageSnapshot.allSame codec payloads others = allFrozenSame codec messages others := by
  induction holds generalizing others with
  | nil => cases others <;> rfl
  | cons encodes _ induction =>
    cases others with
    | nil => rfl
    | cons =>
      rw [MessageSnapshot.allSame, allFrozenSame, restore_of_encodes encodes]
      simp only [induction]

section

variable (holds : Holds codec snapshot messages)
include holds

theorem Holds.equalsSequence_eq (others : List Message) : snapshot.equalsSequence codec others =
      if messages.length = others.length then allFrozenSame codec messages others
      else return false := by
  rw [MessageSnapshot.equalsSequence, holds.length_eq, allSame_eq holds]

theorem Holds.leaves (indices : List Int)
    (inside : ∀ index ∈ indices, 0 ≤ index ∧ index < messages.length) :
    ∃ leaves, indices.mapM snapshot.leaf = .ok leaves ∧ List.Forall₂ (Encodes codec) leaves
        (indices.filterMap fun index => messages[index.toNat]?) := by
  induction indices with
  | nil => exact ⟨[], rfl, .nil⟩
  | cons index indices induction =>
    obtain ⟨leaves, rest, others⟩ :=
      induction fun index member => inside index (mem_cons_of_mem _ member)
    obtain ⟨start, stop⟩ := inside index mem_cons_self
    rcases holds.getElem? index.toNat with
      ⟨-, none⟩ | ⟨payload, message, found, given, encodes⟩
    · have outside := getElem?_eq_none_iff.mp none
      omega
    · have here : snapshot.leaf index = .ok payload := by
        have counted : ¬ index < 0 := by omega
        unfold MessageSnapshot.leaf
        simp only [if_neg counted, holds.length_eq]
        rw [if_pos ⟨start, stop⟩, LeafTree.forestAt_eq, ← MessageSnapshot.payloads_eq, found]
        rfl
      refine ⟨payload :: leaves, ?_, ?_⟩
      · rw [mapM_cons]
        exact bind_eq_ok.mpr ⟨payload, here, bind_eq_ok.mpr ⟨leaves, rest, rfl⟩⟩
      · rw [filterMap_cons_some (f := fun index : Int => messages[index.toNat]?) given]
        exact .cons encodes others

theorem Holds.slice (bounds : Slice) : (bounds.select messages = none ∧
        snapshot.slice bounds = .error (.valueError "slice step cannot be zero")) ∨
      ∃ result selected, bounds.select messages = some selected ∧
        snapshot.slice bounds = .ok result ∧ Holds codec result selected := by
  unfold MessageSnapshot.slice
  rw [holds.length_eq]
  cases found : bounds.indices messages.length with
  | none => exact .inl ⟨by rw [Slice.select, found, Option.map_none], rfl⟩
  | some indices =>
    obtain ⟨start, stop, step⟩ := indices
    dsimp only
    by_cases single : step = 1
    case pos =>
      subst single
      refine .inr ⟨_, _, Slice.select_of_step_one found, if_neg (not_not.mpr rfl), ?_⟩
      rw [Holds, MessageSnapshot.payloads_eq, LeafTree.leaves_cutForest,
        ← MessageSnapshot.payloads_eq, LeafTree.between, Nat.sub_zero, Nat.sub_zero]
      exact forall₂_drop _ (forall₂_take _ holds)
    case neg =>
      obtain ⟨leaves, read, encoded⟩ := holds.leaves (rangeOf start stop step)
        fun index member => Slice.indices_inside found member
      refine .inr ⟨⟨leaves.map .leaf⟩, _, by rw [Slice.select, found, Option.map_some], ?_, ?_⟩
      · rw [if_pos single, read]
        rfl
      · have same : LeafTree.forestLeaves (leaves.map LeafTree.leaf) = leaves := by
          rw [LeafTree.forestLeaves, flatMap_map]
          exact flatMap_singleton' leaves
        rw [Holds, MessageSnapshot.payloads_eq, same]
        exact encoded

end

def framed (codec : MessageCodec Message) (wire : JsonValue) : Payload :=
  utf8 "[" ++ canonicalJsonBytes codec.floatText wire ++ utf8 "]"

theorem fragment_framed (codec : MessageCodec Message) (wire : JsonValue) :
    ((framed codec wire).drop 1).dropLast = canonicalJsonBytes codec.floatText wire := by
  have first : utf8 "[" = [91] := by decide
  have last : utf8 "]" = [93] := by decide
  rw [framed, first, last, append_assoc, singleton_append, drop_succ_cons,
    drop_zero, dropLast_concat]

theorem digestFrom_later (wires : List JsonValue) (index : Nat) (hashed : Payload) (size : Nat) :
    MessageSnapshot.digestFrom (index + 1) (wires.map (framed codec)) hashed size =
      (hashed ++ (wires.map (canonicalJsonBytes codec.floatText)).flatMap (utf8 "," ++ ·), size +
          ((wires.map (canonicalJsonBytes codec.floatText)).flatMap (utf8 "," ++ ·)).length) := by
  have comma : (utf8 ",").length = 1 := by decide
  induction wires generalizing index hashed size with
  | nil => simp [MessageSnapshot.digestFrom]
  | cons wire wires induction =>
    rw [map_cons, MessageSnapshot.digestFrom, if_neg (Nat.succ_ne_zero index), induction,
      fragment_framed, map_cons,
      flatMap_cons, length_append, length_append, comma]
    simp only [append_assoc, add_assoc]

theorem Holds.wires (holds : Holds codec snapshot messages) :
    ∃ wires, messages.mapM codec.encodeMessage = .ok wires ∧
      snapshot.payloads = wires.map (framed codec) := by
  unfold Holds at holds
  generalize snapshot.payloads = payloads at holds ⊢
  induction holds with
  | nil => exact ⟨[], rfl, rfl⟩
  | cons encodes _ induction =>
    obtain ⟨wire, encoded, rfl⟩ := encodes_iff.mp encodes
    obtain ⟨wires, others, rfl⟩ := induction
    refine ⟨wire :: wires, ?_, rfl⟩
    rw [mapM_cons]
    exact bind_eq_ok.mpr ⟨wire, encoded, bind_eq_ok.mpr ⟨wires, others, rfl⟩⟩

theorem Holds.encodedDigest_eq (holds : Holds codec snapshot messages) :
    ∃ bytes, codec.encodeModelMessages messages = .ok bytes ∧
      snapshot.encodedDigest codec = (codec.sha256 bytes, bytes.length) := by
  obtain ⟨wires, encoded, payloads⟩ := holds.wires
  refine ⟨canonicalJsonBytes codec.floatText (.arr wires), ?_, ?_⟩
  · exact bind_eq_ok.mpr ⟨wires, encoded, rfl⟩
  · have first : (utf8 "[").length = 1 := by decide
    have last : (utf8 "]").length = 1 := by decide
    rw [MessageSnapshot.encodedDigest, payloads, canonicalJsonBytes_arr]
    cases wires with
    | nil => rfl
    | cons =>
      rw [map_cons, MessageSnapshot.digestFrom, if_pos rfl, digestFrom_later,
        fragment_framed, map_cons, joinedBytes_cons]
      dsimp only
      rw [Prod.mk.injEq]
      constructor
      · simp only [append_assoc]
      · simp only [length_append, first, last]
        omega

mutual
theorem Expression.evaluate_cases : (expression : Expression Message) →
      (∃ snapshot messages, expression.evaluate codec = .ok snapshot ∧
        expression.listed = .ok messages ∧ Holds codec snapshot messages) ∨
      ∃ raised, expression.evaluate codec = .error raised ∧ (expression.listed = .error raised ∨
          ∃ message ∈ expression.given, codec.encodeModelMessages [message] = .error raised)
  | .snapshot archive messages => by
    rw [evaluate]
    cases ends : archive.snapshot codec messages with
    | ok built => exact .inl ⟨built.1, messages, rfl, rfl, holds_snapshot ends⟩
    | error raised => exact .inr ⟨raised, rfl, .inr (MessageArchive.snapshot_error ends)⟩
  | .concatenate groups => by
    rw [evaluate, listed, given]
    rcases evaluateAll_cases groups with
      ⟨snapshots, messages, evaluated, listed, holds⟩ | ⟨raised, evaluated, reason⟩
    · exact .inl ⟨_, messages, by rw [evaluated]; rfl, listed, holds⟩
    · exact .inr ⟨raised, by rw [evaluated]; rfl, reason⟩
  | .slice operand bounds => by
    rw [evaluate, listed, given]
    rcases evaluate_cases operand with
      ⟨snapshot, messages, evaluated, listed, holds⟩ | ⟨raised, evaluated, reason⟩
    · rw [evaluated, listed]
      rcases holds.slice bounds with ⟨none, raises⟩ | ⟨result, selected, some, ends, kept⟩
      · exact .inr ⟨_, raises, .inl (by rw [ok_bind, none]; rfl)⟩
      · exact .inl ⟨result, selected, ends, by rw [ok_bind, some]; rfl, kept⟩
    · refine .inr ⟨raised, by rw [evaluated]; rfl, ?_⟩
      rcases reason with listed | unencodable
      · exact .inl (by rw [listed]; rfl)
      · exact .inr unencodable

theorem Expression.evaluateAll_cases : (groups : List (Expression Message)) →
      (∃ snapshots messages, evaluateAll codec groups = .ok snapshots ∧
        listedAll groups = .ok messages ∧
          Holds codec (MessageArchive.concatenate snapshots) messages) ∨
      ∃ raised, evaluateAll codec groups = .error raised ∧ (listedAll groups = .error raised ∨
          ∃ message ∈ givenAll groups, codec.encodeModelMessages [message] = .error raised)
  | [] => .inl ⟨[], [], rfl, rfl, holds_nil⟩
  | group :: groups => by
    rw [evaluateAll, listedAll, givenAll]
    rcases evaluate_cases group with
      ⟨snapshot, messages, evaluated, listed, holds⟩ | ⟨raised, evaluated, reason⟩
    · rw [evaluated, listed, ok_bind, ok_bind]
      rcases evaluateAll_cases groups with
        ⟨snapshots, others, evaluatedAll, listedAll, rest⟩ | ⟨raised, evaluatedAll, reason⟩
      · exact .inl ⟨snapshot :: snapshots, messages ++ others, by rw [evaluatedAll]; rfl,
          by rw [listedAll]; rfl, holds.concatenate rest⟩
      · refine .inr ⟨raised, by rw [evaluatedAll]; rfl, ?_⟩
        rcases reason with listedAll | ⟨message, member, unencodable⟩
        · exact .inl (by rw [listedAll]; rfl)
        · exact .inr ⟨message, mem_append_right _ member, unencodable⟩
    · refine .inr ⟨raised, by rw [evaluated]; rfl, ?_⟩
      rcases reason with listed | ⟨message, member, unencodable⟩
      · exact .inl (by rw [listed]; rfl)
      · exact .inr ⟨message, mem_append_left _ member, unencodable⟩
end

structure Agrees (codec : MessageCodec Message) (snapshot : MessageSnapshot)
    (messages : List Message) : Prop where
  length : snapshot.length = messages.length
  elements : ∀ index, snapshot.item codec index = listItem messages index >>= codec.freeze
  iteration : snapshot.iterate codec = messages.mapM codec.freeze
  equality : ∀ others, snapshot.equalsSequence codec others =
    if messages.length = others.length then allFrozenSame codec messages others else return false
  digest : ∃ bytes, codec.encodeModelMessages messages = .ok bytes ∧
    snapshot.encodedDigest codec = (codec.sha256 bytes, bytes.length)

theorem Holds.agrees (holds : Holds codec snapshot messages) : Agrees codec snapshot messages where
  length := holds.length_eq
  elements := holds.item_eq
  iteration := holds.iterate_eq
  equality := holds.equalsSequence_eq
  digest := holds.encodedDigest_eq

theorem snapshot_expressions_follow_lists (codec : MessageCodec Message)
    (left right : Expression Message) : (match left.evaluate codec with
      | .ok snapshot => ∃ messages, left.listed = .ok messages ∧ Agrees codec snapshot messages
      | .error raised => left.listed = .error raised ∨
          ∃ message ∈ left.given, codec.encodeModelMessages [message] = .error raised) ∧
    match left.evaluate codec, right.evaluate codec with
      | .ok snapshot, .ok other => ∃ messages others,
          left.listed = .ok messages ∧ right.listed = .ok others ∧ (snapshot.equals other = true ↔
              messages.map (fun message => codec.encodeModelMessages [message]) =
                others.map fun message => codec.encodeModelMessages [message])
      | _, _ => True := by
  rcases @Expression.evaluate_cases _ codec left with
    ⟨snapshot, messages, evaluated, listed, holds⟩ | ⟨raised, evaluated, reason⟩
  · rw [evaluated]
    refine ⟨⟨messages, listed, holds.agrees⟩, ?_⟩
    rcases @Expression.evaluate_cases _ codec right with
      ⟨other, others, otherEvaluated, otherListed, otherHolds⟩ | ⟨raised, otherEvaluated, -⟩
    · rw [otherEvaluated]
      exact ⟨messages, others, listed, otherListed, holds.equals_iff otherHolds⟩
    · rw [otherEvaluated]
      trivial
  · rw [evaluated]
    exact ⟨reason, trivial⟩

def emptyArchive : MessageArchive where
  leaves := fun _ => none
  branches := fun _ => none
  leaf_right := fun _ _ found => absurd found (by simp)
  branch_right := fun _ _ _ found => absurd found (by simp)

def countCall (count : JsonValue) : JsonValue :=
  .obj [("kind", .str "response"),
    ("parts", .arr [.obj [("args", .obj [("count", count)]), ("part_kind", .str "tool-call"),
      ("tool_call_id", .str "call"), ("tool_name", .str "read")]]), ("version", .int 1)]

def sampleText (value : Rat) : String :=
  toString value.floor ++ ".0"

def sampleDecode (payload : Payload) : Except SnapshotError (List JsonValue) :=
  if payload = canonicalJsonBytes sampleText (.arr [countCall (.int 1)]) then
    .ok [countCall (.int 1)]
  else if payload = canonicalJsonBytes sampleText (.arr [countCall (.float 1)]) then
    .ok [countCall (.float 1)]
  else .error (.codec "STORAGE_INTEGRITY_ERROR")

def sampleCodec : MessageCodec JsonValue where
  floatText := sampleText
  encodeMessage := .ok
  decodeModelMessages := sampleDecode
  same := JsonValue.same
  sha256 := fun _ => "digest"

def listsSame (codec : MessageCodec Message) (left right : List Message) : Bool :=
  left.length == right.length && (left.zip right).all fun pair => codec.same pair.1 pair.2

def sampleSnapshot (count : JsonValue) : Except SnapshotError MessageSnapshot :=
  (Expression.snapshot emptyArchive [countCall count]).evaluate sampleCodec

theorem equal_numbers_make_unequal_snapshots :
    listsSame sampleCodec [countCall (.int 1)] [countCall (.float 1)] = true ∧
      ∃ whole fraction, sampleSnapshot (.int 1) = .ok whole ∧
        sampleSnapshot (.float 1) = .ok fraction ∧ whole.equals fraction = false := by
  refine ⟨by decide +kernel, _, _, rfl, rfl, ?_⟩
  decide +kernel

end Linktools.Transcript
