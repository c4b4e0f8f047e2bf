import Linktools.Workspace.TextLines
import Mathlib.Data.List.Chain

/-! Reading a text file page by page: a page begins where the one before it ends, between two
symbols of the file. -/

namespace Linktools.Workspace

open Linktools.Core Library Library.Utf8

theorem Place.line_le_foldl (place : Place) (shown : List Shown) :
    place.line ≤ (shown.foldl past place).line := by
  induction shown generalizing place with
  | nil => exact le_refl _
  | cons first rest step =>
    refine le_trans ?_ (step _)
    unfold past
    split
    case isTrue => exact Nat.le_succ _
    case isFalse => exact le_refl _

namespace TextScan

def place (scan : TextScan) : Place :=
  ⟨scan.position, scan.line, scan.column⟩

structure Went (scan after : TextScan) (taken : List Shown) : Prop where
  place : after.place = taken.foldl Place.past scan.place
  pieces : after.pieces = scan.pieces ++ taken.flatMap Shown.text
  reachedRange : after.reachedRange = true
  startPosition : after.startPosition = scan.startPosition
  startColumn : after.startColumn = scan.startColumn

variable {bounds : PageBounds} {scan after last : TextScan} {taken rest : List Shown}
  {shown : Shown}

theorem Went.refl (reached : scan.reachedRange = true) : Went scan scan [] :=
  ⟨rfl, (List.append_nil _).symm, reached, rfl, rfl⟩

theorem Went.trans (first : Went scan after taken) (second : Went after last rest) :
    Went scan last (taken ++ rest) where
  place := by rw [second.place, first.place, List.foldl_append]
  pieces := by rw [second.pieces, first.pieces, List.flatMap_append, List.append_assoc]
  reachedRange := second.reachedRange
  startPosition := second.startPosition.trans first.startPosition
  startColumn := second.startColumn.trans first.startColumn

theorem Went.line_le (went : Went scan after taken) : scan.line ≤ after.line := by
  have line : after.line = (taken.foldl Place.past scan.place).line :=
    congrArg Place.line went.place
  exact line ▸ scan.place.line_le_foldl taken

theorem reach_of_reached (reached : scan.reachedRange = true) : scan.reach = scan := if_pos reached

theorem advance_place : (scan.advance shown).place = scan.place.past shown := by
  unfold advance Place.past
  split <;> rfl

theorem went_advance (reached : scan.reachedRange = true) :
    Went scan ((scan.take shown).advance shown) [shown] where
  place := advance_place
  pieces := by
    rw [List.flatMap_singleton]
    unfold advance
    split <;> rfl
  reachedRange := by
    unfold advance
    split <;> exact reached
  startPosition := by
    unfold advance
    split <;> rfl
  startColumn := by
    unfold advance
    split <;> rfl

theorem Went.truncate (went : Went scan after taken) :
    Went scan { after with truncated := true } taken :=
  ⟨went.place, went.pieces, went.reachedRange, went.startPosition, went.startColumn⟩

theorem Went.stopOrGo (went : Went scan after taken) :
    Went scan (after.stopOrGo bounds).1 taken := by
  unfold TextScan.stopOrGo
  split_ifs
  · exact went
  · exact went.truncate
  · exact went

theorem step_went (reached : scan.reachedRange = true)
    (inside : bounds.selectedOffset ≤ scan.line) :
    ∃ taken, taken <+: [shown] ∧ Went scan (scan.step bounds shown).1 taken ∧
      ((scan.step bounds shown).2 = false → taken = [shown]) := by
  unfold step
  rw [reach_of_reached reached]
  split_ifs
  · exact ⟨[], List.nil_prefix, Went.refl reached, False.elim⟩
  · exact ⟨[], List.nil_prefix, (Went.refl reached).truncate, False.elim⟩
  · exact ⟨[shown], List.prefix_rfl, (went_advance reached).stopOrGo, fun _ => rfl⟩

theorem steps_went (reached : scan.reachedRange = true)
    (inside : bounds.selectedOffset ≤ scan.line) (list : List Shown) :
    ∃ taken, taken <+: list ∧ Went scan (scan.steps bounds list).1 taken ∧
      ((scan.steps bounds list).2 = false → taken = list) := by
  induction list generalizing scan with
  | nil => exact ⟨[], List.nil_prefix, Went.refl reached, fun _ => rfl⟩
  | cons shown rest step =>
    obtain ⟨first, begins, went, goes⟩ := @step_went bounds scan shown reached inside
    rw [steps]
    split
    case isTrue stopped =>
      refine ⟨first, begins.trans (List.prefix_append [shown] rest), went, ?_⟩
      exact Bool.noConfusion
    case isFalse going =>
      obtain ⟨later, follows, continued, whole⟩ :=
        step went.reachedRange (le_trans inside went.line_le)
      obtain rfl := goes (Bool.eq_false_of_not_eq_true going)
      refine ⟨shown :: later, (List.prefix_append_right_inj [shown]).mpr follows,
        went.trans continued, fun going => ?_⟩
      rw [whole going]

def fresh (place : Place) : TextScan :=
  ⟨place.byte, place.line, place.column, true, place.byte, place.column, [], 0, false, false⟩

theorem fresh_takes {place : Place} (limited : 1 ≤ bounds.selectedLimit)
    (room : shown.renderedBytes ≤ bounds.maximum) (begins : bounds.selectedOffset = place.line)
    (list : List Shown) : ∃ taken, taken <+: list ∧
      Went (fresh place) ((fresh place).steps bounds (shown :: list)).1 (shown :: taken) := by
  have first : (fresh place).step bounds shown =
      (((fresh place).take shown).advance shown).stopOrGo bounds := by
    unfold step
    rw [if_neg (by rw [begins]; exact not_le.mpr (Nat.lt_add_of_pos_right limited)),
      if_pos (show bounds.selectedOffset ≤ (fresh place).line from le_of_eq begins),
      if_neg (by rw [fresh, zero_add]; exact not_lt.mpr room)]
    rfl
  have went : Went (fresh place) ((fresh place).step bounds shown).1 [shown] :=
    first ▸ (went_advance rfl).stopOrGo
  rw [steps]
  split
  case isTrue => exact ⟨[], List.nil_prefix, went⟩
  case isFalse =>
    obtain ⟨later, follows, continued, -⟩ := steps_went went.reachedRange
      (le_trans (le_of_eq begins) went.line_le) list
    exact ⟨later, follows, went.trans continued⟩

end TextScan

structure PageLimits where
  limit : Option Nat := none
  maxBytes : Option Nat := none
  maxReadBytes : Option Nat := none

namespace PageLimits

structure Accepted (limits : PageLimits) : Prop where
  limit : ∀ limit ∈ limits.limit, 1 ≤ limit
  maxBytes : ∀ bytes ∈ limits.maxBytes, 4 ≤ bytes
  maxReadBytes : ∀ bytes ∈ limits.maxReadBytes, 4 ≤ bytes

def request (limits : PageLimits) (cursor : Option TextCursor) : ReadRequest where
  limit := limits.limit
  cursor := cursor
  maxBytes := limits.maxBytes
  maxReadBytes := limits.maxReadBytes

def readBytes (limits : PageLimits) : Nat :=
  min (limits.maxReadBytes.getD maxScanBytes) maxScanBytes

end PageLimits

/-- The bytes about a cursor that are read to see that it may stand there. -/
def sampleBytes (size : Nat) : Option TextCursor → Nat
  | none => 0
  | some cursor => min size (cursor.byte + 3) - (cursor.byte - 3)

/-- The read budget covers the bytes about the cursor, and beside them the rest of the file or as
many bytes as settle its next symbol. -/
def PageLimits.Affords (limits : PageLimits) (file : TextFile) (cursor : Option TextCursor) :
    Prop :=
  let unread := file.content.drop (cursor.elim 0 TextCursor.byte)
  let sample := sampleBytes file.content.length cursor
  sample ≤ limits.readBytes ∧ (unread.length ≤ limits.readBytes - sample ∨
      settled false (unread.take (limits.readBytes - sample)) ≠ [])

theorem characters_none (none : (characters false chars).1 = []) :
    (chars.map Escaped.size).sum ≤ 1 := by
  match chars with
  | [] => exact Nat.zero_le 1
  | [char] =>
    by_cases carriage : char = .char '\r'
    · rw [carriage]
      exact le_refl 1
    · simp [characters, carriage] at none
  | first :: second :: rest =>
    by_cases carriage : first = .char '\r'
    · by_cases feed : second = .char '\n'
      · simp [characters, carriage, feed] at none
      · by_cases again : second = .char '\r'
        · simp [characters, carriage, again] at none
        · simp [characters, carriage, feed, again] at none
    · simp [characters, carriage] at none

variable {bytes : List UInt8}

theorem settled_of_five (five : 5 ≤ bytes.length) : settled false bytes ≠ [] := by
  intro none
  have small := characters_none none
  have size := size_pieces false bytes
  have kept := length_kept bytes
  omega

theorem PageLimits.affords_of_eleven {limits : PageLimits}
    (eleven : ∀ bytes ∈ limits.maxReadBytes, 11 ≤ bytes) (file : TextFile)
    (cursor : Option TextCursor) : limits.Affords file cursor := by
  have sample : sampleBytes file.content.length cursor ≤ 6 := by
    cases cursor with
    | none => exact Nat.zero_le 6
    | some cursor =>
      simp only [sampleBytes]
      omega
  have budget : 11 ≤ limits.readBytes := by
    apply Nat.le_min.mpr
    refine ⟨?_, by decide⟩
    cases given : limits.maxReadBytes with
    | none => exact show 11 ≤ maxScanBytes by decide
    | some bytes => exact eleven bytes given
  refine ⟨by omega, ?_⟩
  rcases lt_or_ge (limits.readBytes - sampleBytes file.content.length cursor)
    (file.content.drop (cursor.elim 0 TextCursor.byte)).length with short | fits
  · refine .inr (settled_of_five ?_)
    rw [List.length_take]
    omega
  · exact .inl fits

theorem sample_read (reader : ReadBudget) (position : Nat)
    (within : position ≤ reader.content.length) (unread : reader.bytesRead = 0)
    (some : 0 < reader.maximum) :
    let start := position - 3
    let finish := min reader.content.length (position + 3)
    let sample := (reader.content.drop start).take (min (finish - start) reader.maximum)
    readSample reader start finish = .ok (sample, { reader with
      tell := start + sample.length, bytesRead := sample.length }) := by
  intro start finish sample
  unfold readSample
  have length : sample.length = min (finish - start) reader.maximum := by
    simp only [sample, List.length_take, List.length_drop]
    omega
  split
  case isTrue present =>
    unfold ReadBudget.read ReadBudget.seek
    dsimp only
    rw [if_neg (by omega), unread, Nat.sub_zero, zero_add]
  case isFalse absent =>
    have empty : sample = [] := List.eq_nil_of_length_eq_zero (by omega)
    rw [empty, ReadBudget.seek, unread]
    rfl

theorem validateCursorPosition_stands {reader : ReadBudget} {before after : List Shown}
    (split : symbols reader.content = before ++ after) (unread : reader.bytesRead = 0)
    (some : 0 < reader.maximum) :
    let position := shownBytes before
    let sample := min reader.content.length (position + 3) - (position - 3)
    validateCursorPosition reader position reader.content.length =
      if sample ≤ reader.maximum then
        .ok { reader with tell := position, bytesRead := sample }
      else .error (fieldInvalid "scan_byte_limit") := by
  intro position sample
  obtain ⟨-, within, unspanned, undivided⟩ := symbols_split split
  have bound : position ≤ reader.content.length := within
  have length : ((reader.content.drop (position - 3)).take (min sample reader.maximum)).length =
      min sample reader.maximum := by
    rw [List.length_take, List.length_drop]
    omega
  unfold validateCursorPosition
  rw [refuse, if_neg (not_lt.mpr within)]
  simp only [ok_bind]
  rw [sample_read reader position bound unread some]
  simp only [ok_bind]
  rw [length]
  by_cases fits : sample ≤ reader.maximum
  · have atStart : position - 3 + (position - (position - 3)) = position := by omega
    have onBoundary : position - (position - 3) ∈ boundaries
        (escaped ((reader.content.drop (position - 3)).take (min sample reader.maximum))) := by
      rw [mem_boundaries_iff _ (by rw [length]; omega)]
      exact Unspanned.slice (by rw [atStart]; exact unspanned) _
    have together : 0 < position - (position - 3) →
        position - (position - 3) < min sample reader.maximum →
        (((reader.content.drop (position - 3)).take (min sample reader.maximum)).drop
          (position - (position - 3) - 1)).take 2 ≠ [0x0D, 0x0A] := by
      intro positive inside
      rw [List.drop_take, List.drop_drop, List.take_take,
        show position - 3 + (position - (position - 3) - 1) = position - 1 by omega,
        min_eq_left (by omega)]
      exact undivided (by omega)
    rw [if_pos fits, refuse, if_neg (not_not.mpr (min_eq_left fits))]
    simp only [ok_bind]
    rw [refuse, if_neg]
    · rw [min_eq_left fits]
      rfl
    · rintro (outside | ⟨positive, inside, divided⟩)
      · exact outside onBoundary
      · exact together positive inside divided
  · rw [if_neg fits, refuse, if_pos (by omega)]
    rfl

def Shown.Bounded (shown : Shown) : Prop :=
  0 < shown.size ∧ shown.renderedBytes ≤ 4

theorem bounded_of_mem_grouped : ∀ shown ∈ grouped pendingCr chars, shown.Bounded := by
  have carriage : Shown.cr.Bounded := ⟨Nat.one_pos, show 1 ≤ 4 by decide⟩
  have pair : Shown.crlf.Bounded := ⟨Nat.two_pos, show 2 ≤ 4 by decide⟩
  induction chars generalizing pendingCr with
  | nil => cases pendingCr <;> simp [heldBack, carriage]
  | cons char rest step =>
    have plain : ∀ shown ∈ grouped false (char :: rest), shown.Bounded := by
      by_cases other : char = .char '\r'
      · rw [other, grouped_cr]
        exact step
      · rw [grouped_single other, List.forall_mem_cons]
        exact ⟨⟨single_size char ▸ char.size_pos, single_renderedBytes_le char⟩, step⟩
    cases pendingCr with
    | false => exact plain
    | true =>
      by_cases feed : char = .char '\n'
      · rw [feed, grouped_lf, List.forall_mem_cons]
        exact ⟨pair, step⟩
      · rw [grouped_held feed, List.forall_mem_cons]
        exact ⟨carriage, plain⟩

def TextRange.begins (page : TextRange) : Place :=
  ⟨page.byteOffset, page.offset, page.lineOffset⟩

def TextRange.ends (page : TextRange) : Place :=
  ⟨page.endByteOffset, page.endOffset, page.endLineOffset⟩

def placeAfter (before : List Shown) : Place :=
  before.foldl Place.past {}

theorem placeAfter_byte (before : List Shown) : (placeAfter before).byte = shownBytes before := by
  rw [placeAfter, Place.foldl_byte, zero_add]

variable {shown : List Shown}

theorem Place.foldl_within (place : Place) (sized : ∀ symbol ∈ shown, 0 < symbol.size)
    (within : place.line + place.column ≤ place.byte) :
    (shown.foldl past place).line + (shown.foldl past place).column ≤
      (shown.foldl past place).byte := by
  induction shown generalizing place with
  | nil => exact within
  | cons first rest step =>
    have positive := sized first List.mem_cons_self
    apply step _ fun symbol inside => sized symbol (List.mem_cons_of_mem _ inside)
    unfold past
    split <;> dsimp only <;> omega

theorem placeAfter_within (split : symbols bytes = before ++ after) :
    (placeAfter before).line + (placeAfter before).column ≤ (placeAfter before).byte := by
  apply Place.foldl_within
  · intro symbol inside
    exact (bounded_of_mem_grouped symbol
      (show symbol ∈ symbols bytes from split ▸ List.mem_append_left _ inside)).1
  · exact le_refl 0

def TextFile.cursorAt (file : TextFile) (place : Place) : TextCursor :=
  ⟨file.path, file.state, place.byte, place.line, place.column⟩

/-- Where a page begins after some symbols: the first one without a cursor. -/
def Stands (file : TextFile) (before : List Shown) : Option TextCursor → Prop
  | none => before = []
  | some cursor => cursor = file.cursorAt (placeAfter before)

variable {cursor : Option TextCursor} {file : TextFile} {before : List Shown}

theorem Stands.byte
    (stands : Stands file before cursor) : cursor.elim 0 TextCursor.byte = shownBytes before := by
  cases cursor with
  | none =>
    rw [show before = [] from stands]
    rfl
  | some cursor =>
    rw [show cursor = _ from stands]
    exact placeAfter_byte before

theorem startScan_stands (split : symbols file.content = before ++ after)
    (stands : Stands file before cursor) (positive : 0 < maximum) :
    startScan file { content := file.content, maximum } none cursor =
      if sampleBytes file.content.length cursor ≤ maximum then
        .ok (TextScan.fresh (placeAfter before),
          { content := file.content, maximum, tell := (placeAfter before).byte
            bytesRead := sampleBytes file.content.length cursor }, (placeAfter before).line)
      else .error (fieldInvalid "scan_byte_limit") := by
  cases cursor with
  | none =>
    obtain rfl : before = [] := stands
    rw [if_pos (show sampleBytes file.content.length none ≤ maximum from Nat.zero_le _)]
    rfl
  | some cursor =>
    obtain rfl : cursor = file.cursorAt (placeAfter before) := stands
    have validated := @validateCursorPosition_stands { content := file.content, maximum }
      before after split rfl positive
    dsimp only at validated
    rw [← placeAfter_byte] at validated
    have opened (answer : Except Raised ReadBudget)
        (validated : validateCursorPosition { content := file.content, maximum }
          (placeAfter before).byte file.content.length = answer) :
        startScan file { content := file.content, maximum } none
            (some (file.cursorAt (placeAfter before))) = answer >>= fun reader =>
            .ok (TextScan.fresh (placeAfter before), reader, (placeAfter before).line) := by
      unfold startScan
      dsimp only [TextFile.cursorAt]
      rw [validated, refuse, if_neg (not_not.mpr rfl), ok_bind, refuse, if_neg (not_not.mpr rfl),
        ok_bind, refuse, if_neg (not_lt.mpr (placeAfter_within split)), ok_bind]
      rfl
    by_cases fits : sampleBytes file.content.length (some (file.cursorAt (placeAfter before))) ≤
        maximum
    · rw [if_pos fits]
      exact opened _ (validated.trans (if_pos fits))
    · rw [if_neg fits]
      exact opened _ (validated.trans (if_neg fits))

theorem afterScan_reached (reached : outcome.scan.reachedRange = true) :
    afterScan outcome = .ok (if outcome.raised.isSome then { outcome.scan with truncated := true }
      else outcome.scan) := by
  unfold afterScan
  cases outcome.raised with
  | none => rfl
  | some raised =>
    dsimp only
    rw [refuse, if_neg (by rw [reached]; exact Bool.noConfusion), ok_bind]
    rfl

section

variable {bounds : PageBounds} {bytes : List UInt8} {before after : List Shown}
  {budget sample : Nat}

/-- Where a page's loop ends: past a symbol when the budget affords one, and otherwise where it
began. -/
theorem pageScan (split : symbols bytes = before ++ after)
    (limited : 1 ≤ bounds.selectedLimit) (room : 4 ≤ bounds.maximum)
    (begins : bounds.selectedOffset = (placeAfter before).line) (scanned : budget ≤ maxScanBytes) :
    let unread := bytes.drop (placeAfter before).byte
    let reader : ReadBudget := ⟨bytes, budget, (placeAfter before).byte, sample⟩
    let outcome := scanCharacters bounds maxScanBytes [] false 0
      (TextScan.fresh (placeAfter before)) reader
    let affords := unread.length ≤ budget - sample ∨
      settled false (unread.take (budget - sample)) ≠ []
    ∃ taken scan, taken <+: after ∧ afterScan outcome = .ok scan ∧
      TextScan.Went (TextScan.fresh (placeAfter before)) scan taken ∧
      (affords → after = [] ∨ taken ≠ []) ∧ (¬affords → taken = [] ∧ scan.truncated = true) := by
  intro unread reader outcome affords
  obtain ⟨remaining, within, -, -⟩ := symbols_split split
  rw [← placeAfter_byte] at remaining within
  have spec := scanCharacters_spec bounds maxScanBytes [] false 0
    (TextScan.fresh (placeAfter before)) reader (by rw [pieces_nil]) within
  have readable : reader.readable maxScanBytes 0 = budget - sample := by
    simp only [ReadBudget.readable, reader]
    omega
  have ends : reader.Ends maxScanBytes 0 ↔
      unread.length ≤ budget - sample ∧ unread.length < maxScanBytes := by
    simp only [ReadBudget.Ends, reader, unread, List.length_drop, Nat.sub_zero]
  dsimp only at spec
  rw [show grouped false (escaped ([] ++ reader.content.drop reader.tell)) = after from
    remaining.symm, readable, List.nil_append, ends] at spec
  change (outcome.raised = none ∧ outcome.scan = _ ∧ _) ∨
    (outcome.raised = some _ ∧ outcome.scan = _ ∧ _) at spec
  rcases spec with ⟨raised, found, reason⟩ | ⟨raised, found, going, unended⟩
  · have affordable : affords := by
      rcases reason with stopped | ended
      · refine .inr fun none => ?_
        rw [show reader.content.drop reader.tell = unread from rfl, none] at stopped
        cases stopped
      · exact .inl ended.1
    have done (reached : outcome.scan.reachedRange = true) :
        afterScan outcome = .ok outcome.scan := by
      rw [afterScan_reached reached, raised]
      rfl
    cases after with
    | nil =>
      refine ⟨[], outcome.scan, List.prefix_rfl, done (by rw [found]; rfl), ?_,
        fun _ => .inl rfl, fun unaffordable => absurd affordable unaffordable⟩
      rw [found]
      exact TextScan.Went.refl rfl
    | cons shown rest =>
      have bounded := bounded_of_mem_grouped shown
        (show shown ∈ symbols bytes from split ▸ List.mem_append_right _ List.mem_cons_self)
      obtain ⟨later, begun, went⟩ := TextScan.fresh_takes limited
        (le_trans bounded.2 room) begins rest
      rw [← found] at went
      exact ⟨shown :: later, outcome.scan, (List.prefix_append_right_inj [shown]).mpr begun,
        done went.reachedRange, went, fun _ => .inr (List.cons_ne_nil _ _),
        fun unaffordable => absurd affordable unaffordable⟩
  · obtain ⟨taken, begun, went, whole⟩ := TextScan.steps_went rfl
      (le_of_eq begins : bounds.selectedOffset ≤ (TextScan.fresh (placeAfter before)).line)
      (settled false ((reader.content.drop reader.tell).take (budget - sample)))
    obtain rfl := whole going
    rw [← found] at went
    change TextScan.Went _ outcome.scan (settled false (unread.take (budget - sample))) at went
    refine ⟨settled false (unread.take (budget - sample)),
      { outcome.scan with truncated := true }, ?_, ?_, went.truncate, ?_, ?_⟩
    · have whole := grouped_escaped_append false (unread.take (budget - sample))
        (unread.drop (budget - sample))
      rw [List.take_append_drop] at whole
      rw [remaining]
      exact ⟨_, whole.symm⟩
    · rw [afterScan_reached went.reachedRange, raised]
      rfl
    · intro affordable
      refine .inr ?_
      rcases affordable with fits | settles
      · rw [List.take_of_length_le fits]
        apply settled_of_five
        have large : ¬unread.length < maxScanBytes := fun short => unended ⟨fits, short⟩
        have five : 5 ≤ maxScanBytes := by decide
        omega
      · exact settles
    · intro unaffordable
      exact ⟨not_not.mp (not_or.mp unaffordable).2, rfl⟩

end

/-- What a page says of the symbols that it takes after some others. -/
structure PageOf (file : TextFile) (before taken : List Shown) (page : TextRange) : Prop where
  content : page.content = taken.flatMap Shown.text
  begins : page.begins = placeAfter before
  ends : page.ends = placeAfter (before ++ taken)
  eof : page.eof = decide (file.content.length ≤ (placeAfter (before ++ taken)).byte)
  nextCursor : page.nextCursor =
    if page.eof then none else some (file.cursorAt (placeAfter (before ++ taken)))

variable {hexdigest : List UInt8 → String}

theorem textRange_went {file : TextFile} {request : ReadRequest} {before taken : List Shown}
    {scan : TextScan} {reader : ReadBudget} (plain : request.fullMetadata = false)
    (went : TextScan.Went (TextScan.fresh (placeAfter before)) scan taken)
    (goes : file.content.length ≤ scan.position ∨ scan.position ≠ (placeAfter before).byte) :
    ∃ page, textRange hexdigest file request (placeAfter before).line scan reader = .ok page ∧
      PageOf file before taken page := by
  have place : scan.place = placeAfter (before ++ taken) := by
    rw [went.place, placeAfter, placeAfter, List.foldl_append]
    rfl
  have position : (placeAfter (before ++ taken)).byte = scan.position :=
    (congrArg Place.byte place).symm
  unfold textRange
  dsimp only
  rw [refuse, if_neg (by rw [went.reachedRange]; exact fun held => Bool.noConfusion held.1),
    ok_bind, refuse, if_neg, ok_bind, plain]
  · refine ⟨_, rfl, ?_⟩
    constructor
    · exact went.pieces
    · exact congrArg₂ (fun byte column => (⟨byte, (placeAfter before).line, column⟩ : Place))
        went.startPosition went.startColumn
    · exact place
    · rw [position]
    · rw [← place]
      rfl
  · rintro ⟨truncated, still⟩
    rcases goes with ended | moved
    · simp [ended] at truncated
    · exact moved (still.trans went.startPosition)

theorem textRange_stuck (went : TextScan.Went (TextScan.fresh (placeAfter before)) scan [])
    (truncated : scan.truncated = true) (unended : (placeAfter before).byte < file.content.length) :
    textRange hexdigest file request selectedOffset scan reader =
      .error (fieldInvalid "scan_byte_limit") := by
  have position : scan.position = (placeAfter before).byte := congrArg Place.byte went.place
  unfold textRange
  dsimp only
  rw [refuse, if_neg (by rw [went.reachedRange]; exact fun held => Bool.noConfusion held.1),
    ok_bind, refuse, if_pos]
  · rfl
  · refine ⟨?_, position.trans went.startPosition.symm⟩
    rw [position, truncated, decide_eq_false (not_le.mpr unended)]
    simp

theorem length_le_of_split
    (split : symbols bytes = before ++ []) : bytes.length ≤ (placeAfter before).byte := by
  obtain ⟨remaining, -, -, -⟩ := symbols_split split
  by_contra more
  rw [placeAfter_byte] at more
  have unread : bytes.drop (shownBytes before) ≠ [] := by
    rw [← List.length_pos_iff, List.length_drop]
    omega
  obtain ⟨shown, -, present⟩ := symbols_cons unread
  rw [present] at remaining
  cases remaining

theorem shownBytes_append (first rest : List Shown) :
    shownBytes (first ++ rest) = shownBytes first + shownBytes rest := by
  rw [shownBytes, List.map_append, List.sum_append]
  rfl

theorem shownBytes_pos (sized : ∀ symbol ∈ shown, 0 < symbol.size) (present : shown ≠ []) :
    0 < shownBytes shown := by
  cases shown with
  | nil => contradiction
  | cons first rest =>
    rw [shownBytes, List.map_cons, List.sum_cons]
    exact Nat.add_pos_left (sized first List.mem_cons_self) _

theorem readTextRange_accepted {limits : PageLimits} (accepted : limits.Accepted) :
    readTextRange hexdigest file (limits.request cursor) =
      startScan file { content := file.content, maximum := limits.readBytes } none cursor >>=
        fun (start, reader, selectedOffset) =>
          afterScan (scanCharacters ⟨file.content.length, selectedOffset,
            min (limits.limit.getD 200) 2000,
            min (limits.maxBytes.getD maxPreviewBytes) maxPreviewBytes⟩ maxScanBytes [] false 0
            start reader) >>= fun scan =>
            textRange hexdigest file (limits.request cursor) selectedOffset scan
              (scanCharacters ⟨file.content.length, selectedOffset,
                min (limits.limit.getD 200) 2000,
                min (limits.maxBytes.getD maxPreviewBytes) maxPreviewBytes⟩ maxScanBytes [] false 0
                start reader).reader := by
  have limit : ¬∃ limit ∈ limits.limit, limit < 1 := fun ⟨limit, given, low⟩ =>
    not_lt.mpr (accepted.limit limit given) low
  have maxBytes : ¬∃ bytes ∈ limits.maxBytes, bytes < 4 := fun ⟨bytes, given, low⟩ =>
    not_lt.mpr (accepted.maxBytes bytes given) low
  have maxReadBytes : ¬∃ bytes ∈ limits.maxReadBytes, bytes < 4 := fun ⟨bytes, given, low⟩ =>
    not_lt.mpr (accepted.maxReadBytes bytes given) low
  have offset : ¬(cursor.isSome ∧ (none : Option Nat).isSome) := fun both => Bool.noConfusion both.2
  unfold readTextRange
  change refuse (∃ limit ∈ limits.limit, limit < 1) _ >>= _ = _
  rw [show refuse _ _ = .ok () from refuse_eq_ok.mpr limit, ok_bind]
  change refuse (cursor.isSome ∧ (none : Option Nat).isSome) _ >>= _ = _
  rw [show refuse _ _ = .ok () from refuse_eq_ok.mpr offset, ok_bind]
  change refuse (∃ bytes ∈ limits.maxBytes, bytes < 4) _ >>= _ = _
  rw [show refuse _ _ = .ok () from refuse_eq_ok.mpr maxBytes, ok_bind]
  change refuse (∃ bytes ∈ limits.maxReadBytes, bytes < 4) _ >>= _ = _
  rw [show refuse _ _ = .ok () from refuse_eq_ok.mpr maxReadBytes, ok_bind]
  rfl

/-- A page that its budget affords is read and goes on past a symbol; another raises. -/
theorem readPage {file : TextFile} {limits : PageLimits} {before after : List Shown}
    {cursor : Option TextCursor} (accepted : limits.Accepted)
    (split : symbols file.content = before ++ after) (stands : Stands file before cursor) :
    (limits.Affords file cursor → ∃ taken page, taken <+: after ∧
      readTextRange hexdigest file (limits.request cursor) = .ok page ∧
      PageOf file before taken page ∧ (after ≠ [] → taken ≠ [])) ∧ (¬limits.Affords file cursor →
      readTextRange hexdigest file (limits.request cursor) =
        .error (fieldInvalid "scan_byte_limit")) := by
  have budget : 0 < limits.readBytes := by
    apply Nat.lt_min.mpr
    refine ⟨?_, by decide⟩
    cases given : limits.maxReadBytes with
    | none => exact show 0 < maxScanBytes by decide
    | some bytes => exact Nat.lt_of_lt_of_le (by decide) (accepted.maxReadBytes bytes given)
  have limited : 1 ≤ min (limits.limit.getD 200) 2000 := by
    apply Nat.le_min.mpr
    refine ⟨?_, by decide⟩
    cases given : limits.limit with
    | none => exact show 1 ≤ 200 by decide
    | some limit => exact accepted.limit limit given
  have room : 4 ≤ min (limits.maxBytes.getD maxPreviewBytes) maxPreviewBytes := by
    apply Nat.le_min.mpr
    refine ⟨?_, by decide⟩
    cases given : limits.maxBytes with
    | none => exact show 4 ≤ maxPreviewBytes by decide
    | some bytes => exact accepted.maxBytes bytes given
  have opened := startScan_stands split stands budget
  obtain ⟨taken, scan, begun, scanned, went, progress, stuck⟩ :=
    @pageScan ⟨file.content.length, (placeAfter before).line, min (limits.limit.getD 200) 2000,
      min (limits.maxBytes.getD maxPreviewBytes) maxPreviewBytes⟩ file.content before after
      limits.readBytes (sampleBytes file.content.length cursor) split limited room rfl
      (Nat.min_le_right _ _)
  have moved : scan.position = (placeAfter before).byte + shownBytes taken :=
    (congrArg Place.byte went.place).trans (Place.foldl_byte _ _)
  have sized : ∀ symbol ∈ taken, 0 < symbol.size := fun symbol inside =>
    (bounded_of_mem_grouped symbol (show symbol ∈ symbols file.content from
      split ▸ List.mem_append_right _ (begun.subset inside))).1
  have opens (fits : sampleBytes file.content.length cursor ≤ limits.readBytes) :
      ∃ reader, readTextRange hexdigest file (limits.request cursor) =
        textRange hexdigest file (limits.request cursor) (placeAfter before).line scan reader := by
    rw [readTextRange_accepted accepted, opened, if_pos fits, ok_bind]
    dsimp only
    rw [scanned, ok_bind]
    exact ⟨_, rfl⟩
  constructor
  · intro ⟨fits, affords⟩
    rw [stands.byte, ← placeAfter_byte] at affords
    obtain ⟨reader, read⟩ := opens fits
    have goes : file.content.length ≤ scan.position ∨ scan.position ≠ (placeAfter before).byte := by
      by_cases ended : after = []
      · refine .inl ?_
        rw [ended] at begun
        rw [moved, List.prefix_nil.mp begun]
        exact length_le_of_split (ended ▸ split)
      · refine .inr ?_
        have some := shownBytes_pos sized ((progress affords).resolve_left ended)
        omega
    obtain ⟨page, answered, described⟩ := @textRange_went hexdigest file (limits.request cursor)
      before taken scan reader rfl went goes
    exact ⟨taken, page, begun, read.trans answered, described,
      fun more => (progress affords).resolve_left more⟩
  · intro unaffordable
    by_cases fits : sampleBytes file.content.length cursor ≤ limits.readBytes
    · obtain ⟨reader, read⟩ := opens fits
      have stays := stuck fun affords => unaffordable ⟨fits, by
        rw [stands.byte, ← placeAfter_byte]
        exact affords⟩
      rw [stays.1] at went
      have unended : (placeAfter before).byte < file.content.length := by
        by_contra ended
        apply unaffordable
        refine ⟨fits, .inl ?_⟩
        rw [stands.byte, ← placeAfter_byte, List.length_drop]
        omega
      rw [read]
      exact textRange_stuck went stays.2 unended
    · rw [readTextRange_accepted accepted, opened, if_neg fits]
      rfl

/-- Where the next page is read: `none` once the last page has reached the end of the file. -/
def nextRead (pages : List TextRange) : Option (Option TextCursor) :=
  match pages.getLast? with
  | none => some none
  | some last => last.nextCursor.map some

def readPages (hexdigest : List UInt8 → String) (file : TextFile) (limits : Nat → PageLimits) :
    Nat → Except Raised (List TextRange)
  | 0 => pure []
  | count + 1 => do
    let pages ← readPages hexdigest file limits count
    match nextRead pages with
    | none => pure pages
    | some cursor => do
      let page ← readTextRange hexdigest file ((limits count).request cursor)
      pure (pages ++ [page])

def Contiguous (pages : List TextRange) : Prop :=
  pages.IsChain fun page next => next.begins = page.ends

/-- Pages that show the symbols of a file up to where the next one is read. -/
structure Reading (file : TextFile) (pages : List TextRange) (before after : List Shown) :
    Prop where
  split : symbols file.content = before ++ after
  content : pages.flatMap TextRange.content = before.flatMap Shown.text
  contiguous : Contiguous pages
  starts : ∀ page ∈ pages.head?, page.begins = {}
  ends : ∀ page ∈ pages.getLast?, page.ends = placeAfter before
  advances : ∀ page ∈ pages, page.byteOffset < page.endByteOffset ∨ file.content = []
  follows : nextRead pages =
    if pages ≠ [] ∧ after = [] then none
    else some (if pages = [] then none else some (file.cursorAt (placeAfter before)))
  eof : ∀ page ∈ pages.getLast?, page.eof = decide (after = [])
  begun : pages = [] → before = []

theorem Reading.start (file : TextFile) : Reading file [] [] (symbols file.content) where
  split := rfl
  content := rfl
  contiguous := List.IsChain.nil
  starts := fun _ given => by cases given
  ends := fun _ given => by cases given
  advances := fun _ given => by cases given
  follows := rfl
  eof := fun _ given => by cases given
  begun := fun _ => rfl

section

variable {limits : Nat → PageLimits} {pages : List TextRange} {after taken rest : List Shown}
  {page : TextRange}

theorem Reading.stands (reading : Reading file pages before after)
    (follows : nextRead pages = some cursor) : Stands file before cursor := by
  rw [reading.follows] at follows
  split at follows
  case isTrue => cases follows
  case isFalse =>
    obtain rfl := Option.some.inj follows
    by_cases first : pages = []
    · rw [if_pos first]
      exact reading.begun first
    · rw [if_neg first]
      rfl

theorem Reading.more (reading : Reading file pages before after)
    (follows : nextRead pages = some cursor) : pages = [] ∨ after ≠ [] := by
  rw [reading.follows] at follows
  split at follows
  case isTrue => cases follows
  case isFalse unfinished =>
    exact (Decidable.not_and_iff_not_or_not.mp unfinished).imp_left not_not.mp

theorem eof_iff (split : symbols file.content = before ++ after) :
    file.content.length ≤ (placeAfter before).byte ↔ after = [] := by
  constructor
  · intro ended
    obtain ⟨remaining, -, -, -⟩ := symbols_split split
    rw [remaining, List.drop_eq_nil_of_le (by rwa [← placeAfter_byte]), symbols_nil]
  · rintro rfl
    exact length_le_of_split split

theorem Reading.add (reading : Reading file pages before (taken ++ rest))
    (described : PageOf file before taken page) (progress : taken ++ rest ≠ [] → taken ≠ [])
    (more : pages = [] ∨ taken ++ rest ≠ []) :
    Reading file (pages ++ [page]) (before ++ taken) rest := by
  have split : symbols file.content = (before ++ taken) ++ rest := by
    rw [List.append_assoc]
    exact reading.split
  have ended := eof_iff split
  have eof : page.eof = decide (rest = []) := by
    rw [described.eof]
    exact decide_eq_decide.mpr ended
  have last : (pages ++ [page]).getLast? = some page := List.getLast?_concat
  constructor
  case split => exact split
  case content =>
    rw [List.flatMap_append, List.flatMap_append, reading.content, List.flatMap_singleton,
      described.content]
  case contiguous =>
    apply reading.contiguous.append (List.isChain_singleton page)
    intro final given first same
    cases same
    exact described.begins.trans (reading.ends final given).symm
  case starts =>
    intro first given
    cases pages with
    | nil =>
      cases given
      rw [described.begins, reading.begun rfl]
      rfl
    | cons => exact reading.starts first given
  case ends =>
    intro final given
    rw [last] at given
    cases given
    exact described.ends
  case advances =>
    intro member inside
    rcases List.mem_append.mp inside with earlier | latest
    · exact reading.advances member earlier
    · obtain rfl := List.mem_singleton.mp latest
      have begins : member.byteOffset = shownBytes before :=
        (congrArg Place.byte described.begins).trans (placeAfter_byte before)
      have ends : member.endByteOffset = shownBytes (before ++ taken) :=
        (congrArg Place.byte described.ends).trans (placeAfter_byte _)
      by_cases still : taken = []
      · have nothing : taken ++ rest = [] := by
          by_contra unread
          exact progress unread still
        refine .inr ?_
        by_contra present
        obtain ⟨shown, -, begun⟩ := symbols_cons present
        rw [reading.split, nothing,
          reading.begun (more.resolve_right fun unread => unread nothing)] at begun
        cases begun
      · refine .inl ?_
        have positive := shownBytes_pos (fun symbol inside =>
          (bounded_of_mem_grouped symbol (show symbol ∈ symbols file.content from
            split ▸ List.mem_append_left _ (List.mem_append_right _ inside))).1) still
        rw [begins, ends, shownBytes_append]
        exact Nat.lt_add_of_pos_right positive
  case follows =>
    rw [nextRead, last]
    dsimp only
    rw [described.nextCursor, eof]
    have present : pages ++ [page] ≠ [] := List.append_ne_nil_of_right_ne_nil _ (by simp)
    by_cases done : rest = []
    · rw [if_pos (decide_eq_true done), if_pos ⟨present, done⟩]
      rfl
    · rw [if_neg (by simpa using done), if_neg fun both => done both.2, if_neg present]
      rfl
  case eof =>
    intro final given
    rw [last] at given
    cases given
    exact eof
  case begun => exact fun none => absurd none (List.append_ne_nil_of_right_ne_nil _ (by simp))

theorem readPages_reading (accepted : ∀ index, (limits index).Accepted) (count : Nat)
    (done : readPages hexdigest file limits count = .ok pages) :
    ∃ before after, Reading file pages before after ∧
      (count ≤ shownBytes before ∨ pages ≠ [] ∧ after = []) := by
  induction count generalizing pages with
  | zero =>
    cases done
    exact ⟨[], _, Reading.start file, .inl (Nat.zero_le _)⟩
  | succ count step =>
    obtain ⟨earlier, read, done⟩ := bind_eq_ok.mp done
    obtain ⟨before, after, reading, grown⟩ := step read
    cases follows : nextRead earlier with
    | none =>
      rw [follows] at done
      cases done
      have finished := reading.follows.symm.trans follows
      split at finished
      case isTrue ended => exact ⟨before, after, reading, .inr ended⟩
      case isFalse => cases finished
    | some cursor =>
      rw [follows] at done
      obtain ⟨page, read, done⟩ := bind_eq_ok.mp done
      cases done
      have next := @readPage hexdigest _ _ _ _ _ (accepted count) reading.split
        (reading.stands follows)
      by_cases affords : (limits count).Affords file cursor
      · obtain ⟨taken, other, ⟨rest, rfl⟩, found, described, progress⟩ := next.1 affords
        rw [read] at found
        cases found
        have more := reading.more follows
        refine ⟨before ++ taken, rest, reading.add described progress more, ?_⟩
        by_cases nothing : taken ++ rest = []
        · exact .inr ⟨List.append_ne_nil_of_right_ne_nil _ (by simp),
            (List.append_eq_nil_iff.mp nothing).2⟩
        · have positive := shownBytes_pos (fun symbol inside =>
            (bounded_of_mem_grouped symbol (show symbol ∈ symbols file.content from
              reading.split ▸ List.mem_append_right _
                (List.mem_append_left _ inside))).1) (progress nothing)
          refine .inl ?_
          rw [shownBytes_append]
          rcases grown with grown | ended
          · omega
          · exact absurd ended.2 nothing
      · rw [next.2 affords] at read
        cases read

variable {reader after : ReadBudget}

theorem validateCursorPosition_content
    (done : validateCursorPosition reader position size = .ok after) :
    after.content = reader.content := by
  obtain ⟨-, -, done⟩ := bind_eq_ok.mp done
  obtain ⟨⟨sample, read⟩, sampled, done⟩ := bind_eq_ok.mp done
  obtain ⟨-, -, done⟩ := bind_eq_ok.mp done
  obtain ⟨-, -, done⟩ := bind_eq_ok.mp done
  cases done
  rw [readSample] at sampled
  split at sampled
  case isTrue => exact (ReadBudget.read_tell sampled).1
  case isFalse =>
    cases sampled
    rfl

theorem startScan_content
    (done : startScan file reader offset cursor = .ok (start, after, selectedOffset)) :
    after.content = reader.content := by
  cases cursor with
  | none =>
    cases done
    rfl
  | some saved =>
    obtain ⟨-, -, done⟩ := bind_eq_ok.mp done
    obtain ⟨-, -, done⟩ := bind_eq_ok.mp done
    obtain ⟨-, -, done⟩ := bind_eq_ok.mp done
    obtain ⟨read, validated, done⟩ := bind_eq_ok.mp done
    cases done
    exact validateCursorPosition_content validated

theorem readTextRange_totalLines {request : ReadRequest} {answer : TextRange}
    {metadata : Metadata} (done : readTextRange hexdigest file request = .ok answer)
    (given : answer.metadata = some metadata) : metadata.totalLines = totalLines file.content := by
  obtain ⟨-, -, done⟩ := bind_eq_ok.mp done
  obtain ⟨-, -, done⟩ := bind_eq_ok.mp done
  obtain ⟨-, -, done⟩ := bind_eq_ok.mp done
  obtain ⟨-, -, done⟩ := bind_eq_ok.mp done
  obtain ⟨⟨start, reader, selectedOffset⟩, opened, done⟩ := bind_eq_ok.mp done
  obtain ⟨scan, -, done⟩ := bind_eq_ok.mp done
  obtain ⟨-, -, done⟩ := bind_eq_ok.mp done
  obtain ⟨-, -, done⟩ := bind_eq_ok.mp done
  obtain ⟨⟨found, after⟩, told, done⟩ := bind_eq_ok.mp done
  cases done
  obtain rfl : found = some metadata := given
  rw [metadataFor] at told
  split at told
  case isTrue =>
    obtain ⟨⟨other, last⟩, counted, told⟩ := bind_eq_ok.mp told
    cases told
    rw [metadata_totalLines counted, scanCharacters_content, startScan_content opened]
  case isFalse => cases told

def TextRange.lineCount (page : TextRange) : Nat :=
  page.ends.lines

theorem pages_cover_file (hexdigest : List UInt8 → String) (file : TextFile)
    (limits : Nat → PageLimits) (accepted : ∀ index, (limits index).Accepted) :
    (∀ count pages cursor, readPages hexdigest file limits count = .ok pages →
      nextRead pages = some cursor → ¬(limits count).Affords file cursor →
      readPages hexdigest file limits (count + 1) = .error (fieldInvalid "scan_byte_limit")) ∧
    (∀ index cursor, (∀ bytes ∈ (limits index).maxReadBytes, 11 ≤ bytes) →
      (limits index).Affords file cursor) ∧
    ((∀ count pages cursor, readPages hexdigest file limits count = .ok pages →
        nextRead pages = some cursor → (limits count).Affords file cursor) →
      ∃ count pages last, readPages hexdigest file limits count = .ok pages ∧
        pages.getLast? = some last ∧ last.eof = true ∧
        pages.flatMap TextRange.content = rendering file.content ∧ Contiguous pages ∧
        (∀ page ∈ pages.head?, page.begins = {}) ∧ last.endByteOffset = file.content.length ∧
        (∀ page ∈ pages, page.byteOffset < page.endByteOffset ∨ file.content = []) ∧
        ∀ request answer metadata, readTextRange hexdigest file request = .ok answer →
          answer.metadata = some metadata → metadata.totalLines = last.lineCount) := by
  refine ⟨?_, fun index cursor eleven => PageLimits.affords_of_eleven eleven file cursor, ?_⟩
  · intro count pages cursor done follows unaffordable
    obtain ⟨before, after, reading, -⟩ := readPages_reading accepted count done
    rw [readPages, done, ok_bind, follows]
    dsimp only
    rw [(readPage (accepted count) reading.split (reading.stands follows)).2 unaffordable]
    rfl
  · intro affordable
    have succeeds (count : Nat) : ∃ pages, readPages hexdigest file limits count = .ok pages := by
      induction count with
      | zero => exact ⟨[], rfl⟩
      | succ count step =>
        obtain ⟨pages, done⟩ := step
        obtain ⟨before, after, reading, -⟩ := readPages_reading accepted count done
        cases follows : nextRead pages with
        | none =>
          refine ⟨pages, ?_⟩
          rw [readPages, done, ok_bind, follows]
          rfl
        | some cursor =>
          obtain ⟨taken, page, -, read, -, -⟩ :=
            (readPage (accepted count) reading.split (reading.stands follows)).1
              (affordable count pages cursor done follows)
          refine ⟨pages ++ [page], ?_⟩
          rw [readPages, done, ok_bind, follows]
          dsimp only
          rw [read]
          rfl
    obtain ⟨pages, done⟩ := succeeds (file.content.length + 1)
    obtain ⟨before, after, reading, grown⟩ := readPages_reading accepted _ done
    obtain ⟨-, within, -, -⟩ := symbols_split reading.split
    obtain ⟨present, rfl⟩ := grown.resolve_left (by omega)
    have final := List.getLast?_eq_some_getLast present
    generalize pages.getLast present = last at final
    have ends := reading.ends last final
    have whole := reading.split
    rw [List.append_nil] at whole
    refine ⟨_, pages, last, done, final, ?_, ?_, reading.contiguous, reading.starts, ?_,
      reading.advances, ?_⟩
    · rw [reading.eof last final]
      rfl
    · rw [reading.content, ← whole, text_symbols]
    · have bytes := congrArg Place.byte ends
      have covered := length_le_of_split reading.split
      rw [placeAfter_byte] at covered bytes
      exact bytes.trans (le_antisymm within covered)
    · intro request answer metadata read given
      rw [readTextRange_totalLines read given, totalLines_eq, whole, TextRange.lineCount, ends]
      rfl

end

def sampleFile : TextFile :=
  ⟨"notes.txt", [0x61, 0x0D, 0x0A, 0xE2, 0x82, 0x62, 0x0D], "state"⟩

/-- One line and four bytes a page: the first two pages leave a cursor. -/
def sampleLimits : PageLimits := ⟨some 1, some 4, some 11⟩

theorem sample_pages_cover :
    ∃ count pages, readPages (fun _ => "") sampleFile (fun _ => sampleLimits) count = .ok pages ∧
      pages.flatMap TextRange.content = rendering sampleFile.content ∧
      ((readPages (fun _ => "") sampleFile (fun _ => sampleLimits) 2).toOption.bind
        nextRead).isSome = true := by
  have accepted : sampleLimits.Accepted := by
    constructor <;> rintro _ ⟨⟩ <;> decide
  obtain ⟨-, eleven, covers⟩ :=
    pages_cover_file (fun _ => "") sampleFile (fun _ => sampleLimits) fun _ => accepted
  obtain ⟨count, pages, -, done, -, -, content, -⟩ := covers fun count _ cursor _ _ =>
    eleven count cursor fun _ given => le_of_eq (Option.mem_some_iff.mp given)
  exact ⟨count, pages, done, content, by decide +kernel⟩

/-- A CR is held back until the character after it is decoded, which may take four bytes more. -/
def heldFile : TextFile :=
  ⟨"notes.txt", [0x0D, 0xF0, 0x9F, 0x98, 0x80], "state"⟩

theorem accepted_budget_raises : ∃ limits : PageLimits, limits.Accepted ∧ ∀ hexdigest,
      readTextRange hexdigest heldFile (limits.request none) =
        .error (fieldInvalid "scan_byte_limit") := by
  have four : PageLimits.Accepted { maxReadBytes := some 4 } :=
    ⟨fun _ given => absurd given (Option.not_mem_none _),
      fun _ given => absurd given (Option.not_mem_none _),
      fun _ given => le_of_eq (Option.mem_some_iff.mp given)⟩
  refine ⟨_, four, fun hexdigest => ?_⟩
  refine (@readPage hexdigest heldFile _ [] _ none four rfl rfl).2 ?_
  intro affords
  have unsettled : settled false [0x0D, 0xF0, 0x9F, 0x98] = [] := by decide +kernel
  rcases affords.2 with short | settles
  · exact absurd short (by decide)
  · exact settles unsettled

end Linktools.Workspace
