import Linktools.Library.Retreat

/-! The tail of a conversation that a compaction keeps: a tool return is never kept without
the call that it answers. -/

namespace Linktools.Runtime

open Library
open List hiding after

inductive MessagePart
  | toolCall (toolCallId : String)
  | toolReturn (toolCallId : String)
  | other
deriving DecidableEq

structure ModelMessage where
  parts : List MessagePart

inductive CompactionError
  | contextPayloadTooLarge (reason : String)

structure PartScan where
  calls : String → Option Nat
  dependency : Nat
  orphans : List Nat

structure MessageScan where
  calls : String → Option Nat
  dependencies : List Nat
  orphans : List Nat

def scanPart (index : Nat) (scan : PartScan) : MessagePart → PartScan
  | .toolCall toolCallId =>
    { scan with calls := Function.update scan.calls toolCallId (some index) }
  | .toolReturn toolCallId =>
    match scan.calls toolCallId with
    | none => { scan with orphans := index :: scan.orphans }
    | some called => { scan with dependency := min scan.dependency called }
  | .other => scan

def scanMessage (scan : MessageScan) (message : ModelMessage) : MessageScan :=
  let index := scan.dependencies.length
  let scanned := message.parts.foldl (scanPart index) ⟨scan.calls, index, scan.orphans⟩
  { calls := scanned.calls
    dependencies := scan.dependencies ++ [scanned.dependency]
    orphans := scanned.orphans }

def scanMessages (messages : List ModelMessage) : MessageScan :=
  messages.foldl scanMessage ⟨fun _ => none, [], []⟩

def dependencySafeTail (messages : List ModelMessage) (keep : Int) : Except CompactionError Nat :=
  let start := (max 0 ((messages.length : Int) - max 1 keep)).toNat
  let scan := scanMessages messages
  let start := retreat scan.dependencies.reverse start
  if scan.orphans.any (fun index => start ≤ index) then
    .error (.contextPayloadTooLarge "orphan_tool_context")
  else .ok start

abbrev Occurrence := Nat × MessagePart

def occurrencesFrom : Nat → List ModelMessage → List Occurrence
  | _, [] => []
  | index, message :: messages =>
    message.parts.map (index, ·) ++ occurrencesFrom (index + 1) messages

def occurrences (messages : List ModelMessage) : List Occurrence :=
  occurrencesFrom 0 messages

def Uncalled (seen : List Occurrence) (toolCallId : String) : Prop :=
  ∀ occurrence ∈ seen, occurrence.2 ≠ .toolCall toolCallId

/-- The most recent call of an id stands in the message `called`. -/
def LatestCall (seen : List Occurrence) (toolCallId : String) (called : Nat) : Prop :=
  ∃ earlier between, seen = earlier ++ (called, .toolCall toolCallId) :: between ∧
    Uncalled between toolCallId

def Refers (parts : List Occurrence) (index called : Nat) : Prop :=
  ∃ before toolCallId after, parts = before ++ (index, .toolReturn toolCallId) :: after ∧
    LatestCall before toolCallId called

def Orphan (parts : List Occurrence) (index : Nat) : Prop :=
  ∃ before toolCallId after, parts = before ++ (index, .toolReturn toolCallId) :: after ∧
    Uncalled before toolCallId

/-- Every tool return at or after the start refers to a most recent earlier call that is also
at or after it. -/
def SafeStart (messages : List ModelMessage) (start : Nat) : Prop :=
  ∀ before index toolCallId after,
    occurrences messages = before ++ (index, .toolReturn toolCallId) :: after →
      start ≤ index → ∃ called, LatestCall before toolCallId called ∧ start ≤ called

/-- The calls that are there at all are not separated from their returns. -/
def KeepsCalls (messages : List ModelMessage) (start : Nat) : Prop :=
  ∀ index called, Refers (occurrences messages) index called → start ≤ index → start ≤ called

variable {seen parts : List Occurrence} {occurrence : Occurrence} {index called start : Nat}
variable {toolCallId : String}

theorem concat_split_iff :
    seen ++ [occurrence] = before ++ found :: after ↔
      (after = [] ∧ before = seen ∧ found = occurrence) ∨
        ∃ rest, after = rest ++ [occurrence] ∧ seen = before ++ found :: rest := by
  constructor
  · intro split
    rcases eq_nil_or_concat after with rfl | ⟨rest, last, rfl⟩
    · obtain ⟨same, last⟩ := append_inj' split rfl
      exact .inl ⟨rfl, same.symm, (singleton_inj.mp last).symm⟩
    · rw [concat_eq_append, ← cons_append, ← append_assoc] at split
      obtain ⟨same, last⟩ := append_inj' split rfl
      rw [singleton_inj.mp last]
      exact .inr ⟨rest, concat_eq_append, same⟩
  · rintro (⟨rfl, rfl, rfl⟩ | ⟨rest, rfl, rfl⟩)
    · rfl
    · simp

@[simp] theorem uncalled_nil : Uncalled [] toolCallId := by
  simp [Uncalled]

theorem uncalled_concat : Uncalled (seen ++ [(index, part)]) toolCallId ↔
      Uncalled seen toolCallId ∧ part ≠ .toolCall toolCallId := by
  simp [Uncalled, or_imp, forall_and]

@[simp] theorem not_latestCall_nil : ¬ LatestCall [] toolCallId called := by
  simp [LatestCall]

theorem latestCall_concat : LatestCall (seen ++ [(index, part)]) toolCallId called ↔
      (part = .toolCall toolCallId ∧ called = index) ∨
        (part ≠ .toolCall toolCallId ∧ LatestCall seen toolCallId called) := by
  constructor
  · rintro ⟨earlier, between, split, uncalled⟩
    rcases concat_split_iff.mp split with ⟨-, -, last⟩ | ⟨rest, rfl, rfl⟩
    · obtain ⟨rfl, rfl⟩ := Prod.mk.inj last
      exact .inl ⟨rfl, rfl⟩
    · obtain ⟨uncalled, other⟩ := uncalled_concat.mp uncalled
      exact .inr ⟨other, earlier, rest, rfl, uncalled⟩
  · rintro (⟨rfl, rfl⟩ | ⟨other, earlier, between, rfl, uncalled⟩)
    · exact ⟨seen, [], rfl, uncalled_nil⟩
    · exact ⟨earlier, between ++ [(index, part)], by simp, uncalled_concat.mpr ⟨uncalled, other⟩⟩

theorem LatestCall.unique (first : LatestCall seen toolCallId called)
    (second : LatestCall seen toolCallId other) : called = other := by
  induction seen using reverseRecOn with
  | nil => exact absurd first not_latestCall_nil
  | append_singleton seen occurrence induction =>
    rcases latestCall_concat.mp first with ⟨call, rfl⟩ | ⟨differs, first⟩
    · rcases latestCall_concat.mp second with ⟨-, rfl⟩ | ⟨differs, -⟩
      · rfl
      · exact absurd call differs
    · rcases latestCall_concat.mp second with ⟨call, -⟩ | ⟨-, second⟩
      · exact absurd call differs
      · exact induction first second

theorem LatestCall.not_uncalled (latest : LatestCall seen toolCallId called) :
    ¬ Uncalled seen toolCallId := by
  obtain ⟨earlier, between, rfl, -⟩ := latest
  intro uncalled
  exact uncalled (called, .toolCall toolCallId) (by simp) rfl

@[simp] theorem not_refers_nil : ¬ Refers [] index called := by
  simp [Refers]

variable {position : Nat}

theorem exists_return_concat {holds : List Occurrence → String → Prop} :
    (∃ before toolCallId after, seen ++ [(position, part)] =
        before ++ (index, .toolReturn toolCallId) :: after ∧ holds before toolCallId) ↔
      (∃ before toolCallId after, seen = before ++ (index, .toolReturn toolCallId) :: after ∧
          holds before toolCallId) ∨
        ∃ toolCallId, part = .toolReturn toolCallId ∧ index = position ∧
          holds seen toolCallId := by
  constructor
  · rintro ⟨before, toolCallId, after, split, held⟩
    rcases concat_split_iff.mp split with ⟨rfl, rfl, last⟩ | ⟨rest, rfl, rfl⟩
    · obtain ⟨rfl, rfl⟩ := Prod.mk.inj last
      exact .inr ⟨toolCallId, rfl, rfl, held⟩
    · exact .inl ⟨before, toolCallId, rest, rfl, held⟩
  · rintro (⟨before, toolCallId, after, rfl, held⟩ | ⟨toolCallId, rfl, rfl, held⟩)
    · exact ⟨before, toolCallId, after ++ [(position, part)], by simp, held⟩
    · exact ⟨seen, toolCallId, [], rfl, held⟩

theorem refers_concat : Refers (seen ++ [(position, part)]) index called ↔
      Refers seen index called ∨ ∃ toolCallId, part = .toolReturn toolCallId ∧ index = position ∧
          LatestCall seen toolCallId called :=
  exists_return_concat

@[simp] theorem not_orphan_nil : ¬ Orphan [] index := by
  simp [Orphan]

theorem orphan_concat : Orphan (seen ++ [(position, part)]) index ↔ Orphan seen index ∨
        ∃ toolCallId, part = .toolReturn toolCallId ∧ index = position ∧
          Uncalled seen toolCallId :=
  exists_return_concat

structure CallsFound (seen : List Occurrence) (calls : String → Option Nat) : Prop where
  latest : ∀ toolCallId called, calls toolCallId = some called → LatestCall seen toolCallId called
  uncalled : ∀ toolCallId, calls toolCallId = none → Uncalled seen toolCallId

theorem callsFound_nil : CallsFound [] fun _ => none where
  latest := by simp
  uncalled := by simp

variable {calls : String → Option Nat}

theorem CallsFound.latest_iff (found : CallsFound seen calls) :
    LatestCall seen toolCallId called ↔ calls toolCallId = some called := by
  constructor
  · intro latest
    cases known : calls toolCallId with
    | none => exact absurd (found.uncalled toolCallId known) latest.not_uncalled
    | some other => rw [latest.unique (found.latest toolCallId other known)]
  · exact found.latest toolCallId called

theorem CallsFound.uncalled_iff (found : CallsFound seen calls) :
    Uncalled seen toolCallId ↔ calls toolCallId = none := by
  constructor
  · intro uncalled
    cases known : calls toolCallId with
    | none => rfl
    | some called => exact absurd uncalled (found.latest toolCallId called known).not_uncalled
  · exact found.uncalled toolCallId

theorem CallsFound.keep (found : CallsFound seen calls)
    (differs : ∀ toolCallId, part ≠ .toolCall toolCallId) :
    CallsFound (seen ++ [(index, part)]) calls where
  latest := fun toolCallId called known =>
    latestCall_concat.mpr (.inr ⟨differs toolCallId, found.latest toolCallId called known⟩)
  uncalled := fun toolCallId unknown =>
    uncalled_concat.mpr ⟨found.uncalled toolCallId unknown, differs toolCallId⟩

theorem CallsFound.call {calls : String → Option Nat} (found : CallsFound seen calls) :
    CallsFound (seen ++ [(index, .toolCall toolCallId)])
      (Function.update calls toolCallId (some index)) where
  latest := by
    intro other called known
    rw [latestCall_concat]
    by_cases same : other = toolCallId
    case pos =>
      subst same
      rw [Function.update_self] at known
      exact .inl ⟨rfl, (Option.some.inj known).symm⟩
    case neg =>
      rw [Function.update_of_ne same] at known
      refine .inr ⟨?_, found.latest other called known⟩
      intro equal
      exact same (MessagePart.toolCall.inj equal).symm
  uncalled := by
    intro other unknown
    by_cases same : other = toolCallId
    case pos =>
      rw [same, Function.update_self] at unknown
      exact absurd unknown (Option.some_ne_none index)
    case neg =>
      rw [Function.update_of_ne same] at unknown
      refine uncalled_concat.mpr ⟨found.uncalled other unknown, ?_⟩
      intro equal
      exact same (MessagePart.toolCall.inj equal).symm

/-- Inside the message `index`: the dependency bounds what its returns refer to. -/
structure PartsFound (seen : List Occurrence) (index : Nat) (scan : PartScan) : Prop where
  calls : CallsFound seen scan.calls
  depends : ∀ start, start ≤ scan.dependency ↔
    start ≤ index ∧ ∀ called, Refers seen index called → start ≤ called
  orphans : ∀ position, position ∈ scan.orphans ↔ Orphan seen position

variable {scan : PartScan}

theorem PartsFound.scanPart (found : PartsFound seen index scan) (part : MessagePart) :
    PartsFound (seen ++ [(index, part)]) index (scanPart index scan part) := by
  cases part with
  | toolCall toolCallId =>
    refine ⟨found.calls.call, fun start => ?_, fun position => ?_⟩
    · simp only [refers_concat, reduceCtorEq, false_and, exists_false, or_false]
      exact found.depends start
    · simp only [orphan_concat, reduceCtorEq, false_and, exists_false, or_false]
      exact found.orphans position
  | other =>
    refine ⟨found.calls.keep (by simp), fun start => ?_, fun position => ?_⟩
    · simp only [refers_concat, reduceCtorEq, false_and, exists_false, or_false]
      exact found.depends start
    · simp only [orphan_concat, reduceCtorEq, false_and, exists_false, or_false]
      exact found.orphans position
  | toolReturn toolCallId =>
    have returned : ∀ called, Refers (seen ++ [(index, .toolReturn toolCallId)]) index called ↔
        Refers seen index called ∨ scan.calls toolCallId = some called := by
      intro called
      rw [refers_concat, ← found.calls.latest_iff]
      simp
    have orphaned : ∀ position, Orphan (seen ++ [(index, .toolReturn toolCallId)]) position ↔
          Orphan seen position ∨ position = index ∧ scan.calls toolCallId = none := by
      intro position
      rw [orphan_concat, ← found.calls.uncalled_iff]
      simp
    cases known : scan.calls toolCallId with
    | none =>
      simp only [Runtime.scanPart, known]
      refine ⟨found.calls.keep (by simp), fun start => ?_, fun position => ?_⟩
      · simp only [returned, known, reduceCtorEq, or_false]
        exact found.depends start
      · simp only [orphaned, known, and_true, mem_cons, found.orphans position]
        exact or_comm
    | some called =>
      simp only [Runtime.scanPart, known]
      refine ⟨found.calls.keep (by simp), fun start => ?_, fun position => ?_⟩
      · simp only [returned, known, Option.some.injEq, Nat.le_min, found.depends start,
          or_imp, forall_and, forall_eq', and_assoc]
      · simp only [orphaned, known, reduceCtorEq, and_false, or_false]
        exact found.orphans position

theorem PartsFound.scanParts (found : PartsFound seen index scan) (parts : List MessagePart) :
    PartsFound (seen ++ parts.map (index, ·)) index
      (parts.foldl (Runtime.scanPart index) scan) := by
  induction parts generalizing seen scan with
  | nil => simpa using found
  | cons part parts induction =>
    have next := induction (found.scanPart part)
    rwa [append_assoc, singleton_append] at next

theorem refers_append_of_ne (parts : List MessagePart) (differs : position ≠ index) :
    Refers (seen ++ parts.map (index, ·)) position called ↔ Refers seen position called := by
  induction parts generalizing seen with
  | nil => simp
  | cons part parts induction =>
    have next := @induction (seen ++ [(index, part)])
    rw [append_assoc, singleton_append] at next
    rw [map_cons, next, refers_concat]
    constructor
    · rintro (refers | ⟨toolCallId, -, same, -⟩)
      · exact refers
      · exact absurd same differs
    · exact .inl

structure MessagesFound (seen : List Occurrence) (scan : MessageScan) : Prop where
  calls : CallsFound seen scan.calls
  inside : ∀ index called, Refers seen index called → index < scan.dependencies.length
  depends : ∀ index dependency, scan.dependencies[index]? = some dependency → ∀ start,
    start ≤ dependency ↔ start ≤ index ∧ ∀ called, Refers seen index called → start ≤ called
  orphans : ∀ position, position ∈ scan.orphans ↔ Orphan seen position

theorem messagesFound_nil : MessagesFound [] ⟨fun _ => none, [], []⟩ where
  calls := callsFound_nil
  inside := by simp
  depends := by simp
  orphans := by simp

theorem MessagesFound.scanMessage {scan : MessageScan} (found : MessagesFound seen scan)
    (message : ModelMessage) :
    MessagesFound (seen ++ message.parts.map (scan.dependencies.length, ·))
      (scanMessage scan message) := by
  have start : PartsFound seen scan.dependencies.length
      ⟨scan.calls, scan.dependencies.length, scan.orphans⟩ := by
    refine ⟨found.calls, fun start => ?_, found.orphans⟩
    refine ⟨fun lower => ⟨lower, fun called refers => ?_⟩, And.left⟩
    exact absurd (found.inside _ called refers) (lt_irrefl _)
  have scanned := start.scanParts message.parts
  refine ⟨scanned.calls, ?_, ?_, scanned.orphans⟩
  · intro index called refers
    rw [Runtime.scanMessage, length_append, length_singleton]
    by_cases last : index = scan.dependencies.length
    case pos => omega
    case neg =>
      have := found.inside index called ((refers_append_of_ne message.parts last).mp refers)
      omega
  · intro index dependency known lower
    rw [Runtime.scanMessage, getElem?_append] at known
    split at known
    case isTrue within =>
      rw [found.depends index dependency known lower]
      simp only [refers_append_of_ne message.parts (Nat.ne_of_lt within)]
    case isFalse beyond =>
      obtain ⟨bound, rfl⟩ := List.getElem?_eq_some_iff.mp known
      rw [length_singleton] at bound
      obtain rfl : index = scan.dependencies.length := by omega
      rw [getElem_singleton]
      exact scanned.depends lower

theorem MessagesFound.scanMessages {scan : MessageScan} (found : MessagesFound seen scan)
    (messages : List ModelMessage) :
    MessagesFound (seen ++ occurrencesFrom scan.dependencies.length messages)
      (messages.foldl Runtime.scanMessage scan) := by
  induction messages generalizing seen scan with
  | nil => simpa [occurrencesFrom] using found
  | cons message messages induction =>
    have next := induction (found.scanMessage message)
    have grown : (Runtime.scanMessage scan message).dependencies.length =
        scan.dependencies.length + 1 := by
      simp [Runtime.scanMessage]
    rw [grown, append_assoc] at next
    exact next

theorem scanMessages_found (messages : List ModelMessage) :
    MessagesFound (occurrences messages) (scanMessages messages) := by
  have found := messagesFound_nil.scanMessages messages
  rwa [nil_append] at found

theorem closedFrom_scan_iff (messages : List ModelMessage) (start : Nat) :
    ClosedFrom (scanMessages messages).dependencies start ↔ KeepsCalls messages start := by
  have found := scanMessages_found messages
  constructor
  · intro closed index called refers reached
    have inside := found.inside index called refers
    have known := getElem?_eq_getElem inside
    have lower := closed index _ known reached
    exact ((found.depends index _ known start).mp lower).2 called refers
  · intro keeps index dependency known reached
    rw [found.depends index dependency known start]
    exact ⟨reached, fun called refers => keeps index called refers reached⟩

theorem called_or_uncalled (seen : List Occurrence) (toolCallId : String) :
    Uncalled seen toolCallId ∨ ∃ called, LatestCall seen toolCallId called := by
  induction seen using reverseRecOn with
  | nil => exact .inl uncalled_nil
  | append_singleton seen occurrence induction =>
    obtain ⟨index, part⟩ := occurrence
    by_cases call : part = .toolCall toolCallId
    case pos => exact .inr ⟨index, latestCall_concat.mpr (.inl ⟨call, rfl⟩)⟩
    case neg =>
      rcases induction with uncalled | ⟨called, latest⟩
      · exact .inl (uncalled_concat.mpr ⟨uncalled, call⟩)
      · exact .inr ⟨called, latestCall_concat.mpr (.inr ⟨call, latest⟩)⟩

variable {messages : List ModelMessage}

theorem safeStart_iff : SafeStart messages start ↔
      KeepsCalls messages start ∧ ∀ index, Orphan (occurrences messages) index → index < start := by
  constructor
  · intro safe
    constructor
    · rintro index called ⟨before, toolCallId, after, split, latest⟩ reached
      obtain ⟨other, kept, lower⟩ := safe before index toolCallId after split reached
      rwa [latest.unique kept]
    · rintro index ⟨before, toolCallId, after, split, uncalled⟩
      by_contra reached
      obtain ⟨called, latest, -⟩ :=
        safe before index toolCallId after split (Nat.le_of_not_lt reached)
      exact latest.not_uncalled uncalled
  · rintro ⟨keeps, orphans⟩ before index toolCallId after split reached
    rcases called_or_uncalled before toolCallId with uncalled | ⟨called, latest⟩
    · have := orphans index ⟨before, toolCallId, after, split, uncalled⟩
      omega
    · exact ⟨called, latest, keeps index called ⟨before, toolCallId, after, split, latest⟩ reached⟩

theorem orphans_any_iff (messages : List ModelMessage) (start : Nat) :
    ((scanMessages messages).orphans.any fun index => start ≤ index) = true ↔
      ∃ index, Orphan (occurrences messages) index ∧ start ≤ index := by
  simp [any_eq_true, (scanMessages_found messages).orphans]

def UpperBound (messages : List ModelMessage) (keep : Int) (start : Nat) : Prop :=
  (start : Int) ≤ max 0 ((messages.length : Int) - max 1 keep)

theorem upperBound_iff : UpperBound messages keep start ↔
      start ≤ (max 0 ((messages.length : Int) - max 1 keep)).toNat := by
  unfold UpperBound
  omega

theorem retreat_keepsCalls (messages : List ModelMessage) (keep : Int) :
    IsGreatest {start | UpperBound messages keep start ∧ KeepsCalls messages start}
      (retreat (scanMessages messages).dependencies.reverse
        (max 0 ((messages.length : Int) - max 1 keep)).toNat) := by
  have greatest := retreat_isGreatest (scanMessages messages).dependencies
    (max 0 ((messages.length : Int) - max 1 keep)).toNat
  simpa only [closedFrom_scan_iff, ← upperBound_iff] using greatest

theorem dependency_safe_tail_is_greatest (messages : List ModelMessage) (keep : Int) :
    match dependencySafeTail messages keep with
    | .ok start =>
      IsGreatest {start | UpperBound messages keep start ∧ SafeStart messages start} start
    | .error raised =>
      raised = .contextPayloadTooLarge "orphan_tool_context" ∧ (∃ start index,
          IsGreatest {start | UpperBound messages keep start ∧ KeepsCalls messages start} start ∧
            Orphan (occurrences messages) index ∧ start ≤ index) ∧
        ∀ start, UpperBound messages keep start → ¬ SafeStart messages start := by
  have greatest := retreat_keepsCalls messages keep
  rw [dependencySafeTail]
  split
  case h_1 start answered =>
    split at answered
    case isTrue => exact absurd answered (by simp)
    case isFalse clear =>
      obtain rfl := Except.ok.inj answered
      rw [orphans_any_iff] at clear
      constructor
      · refine ⟨greatest.1.1, safeStart_iff.mpr ⟨greatest.1.2, fun index orphan => ?_⟩⟩
        by_contra reached
        exact clear ⟨index, orphan, Nat.le_of_not_lt reached⟩
      · rintro start ⟨bound, safe⟩
        exact greatest.2 ⟨bound, (safeStart_iff.mp safe).1⟩
  case h_2 raised answered =>
    split at answered
    case isFalse => exact absurd answered (by simp)
    case isTrue raises =>
      obtain rfl := Except.error.inj answered
      obtain ⟨index, orphan, reached⟩ := (orphans_any_iff messages _).mp raises
      refine ⟨rfl, ⟨_, index, greatest, orphan, reached⟩, fun start bound safe => ?_⟩
      obtain ⟨keeps, before⟩ := safeStart_iff.mp safe
      have lower := greatest.2 ⟨bound, keeps⟩
      have := before index orphan
      omega

end Linktools.Runtime
