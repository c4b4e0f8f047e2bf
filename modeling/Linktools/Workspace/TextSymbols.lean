import Linktools.Workspace.TextReads

/-! What a text file shows as a whole, and where the shown symbols stand, however the blocks cut
the bytes. -/

namespace Linktools.Workspace

open Library Library.Utf8 ReadBudget
open List hiding after

/-- The text of a file: a replacement for each damaged byte and for each NUL. -/
def rendering (bytes : List UInt8) : List Char :=
  (escaped bytes).flatMap fun char => (Shown.single char).text

def heldBack (pendingCr : Bool) : List Shown :=
  if pendingCr then [Shown.cr] else []

def grouped (pendingCr : Bool) (chars : List Escaped) : List Shown :=
  (characters pendingCr chars).1 ++ heldBack (characters pendingCr chars).2

def symbols (bytes : List UInt8) : List Shown :=
  grouped false (escaped bytes)

section

attribute [local simp] characters

@[simp] theorem grouped_nil (pendingCr : Bool) : grouped pendingCr [] = heldBack pendingCr := by
  simp [grouped]

@[simp] theorem grouped_lf (rest : List Escaped) :
    grouped true (.char '\n' :: rest) = Shown.crlf :: grouped false rest := by
  simp [grouped]

theorem grouped_held (other : char ≠ .char '\n') (rest : List Escaped) :
    grouped true (char :: rest) = Shown.cr :: grouped false (char :: rest) := by
  by_cases again : char = .char '\r'
  · simp [grouped, again]
  · simp [grouped, again, other]

@[simp] theorem grouped_cr (rest : List Escaped) :
    grouped false (.char '\r' :: rest) = grouped true rest := by
  simp [grouped]

theorem grouped_single (other : char ≠ .char '\r') (rest : List Escaped) :
    grouped false (char :: rest) = Shown.single char :: grouped false rest := by
  simp [grouped, other]

theorem characters_append (pendingCr : Bool) (first rest : List Escaped) :
    characters pendingCr (first ++ rest) =
      ((characters pendingCr first).1 ++ (characters (characters pendingCr first).2 rest).1,
        (characters (characters pendingCr first).2 rest).2) := by
  induction first generalizing pendingCr with
  | nil => simp
  | cons char first step =>
    simp only [cons_append, characters, step]
    split_ifs <;> simp

end

theorem single_size (char : Escaped) : (Shown.single char).size = char.size := by
  cases char with
  | char c =>
    simp only [Shown.single, Escaped.size]
    split_ifs <;> rfl
  | byte => rfl

theorem single_renderedBytes_le (char : Escaped) : (Shown.single char).renderedBytes ≤ 4 := by
  cases char with
  | char c =>
    simp only [Shown.single]
    split_ifs
    · exact show (3 : Nat) ≤ 4 by decide
    · simpa [Shown.renderedBytes] using c.utf8Size_le_four
  | byte => exact show (3 : Nat) ≤ 4 by decide

@[simp] theorem symbols_nil : symbols [] = [] := by
  simp [symbols, heldBack]

inductive Leads (bytes : List UInt8) : Shown → Prop where
  | single : char ≠ .char '\r' →
      escaped bytes = char :: escaped (bytes.drop char.size) → Leads bytes (Shown.single char)
  | cr : escaped bytes = .char '\r' :: escaped (bytes.drop 1) →
      (escaped (bytes.drop 1)).head? ≠ some (.char '\n') → Leads bytes Shown.cr
  | crlf : escaped bytes = .char '\r' :: escaped (bytes.drop 1) →
      escaped (bytes.drop 1) = .char '\n' :: escaped (bytes.drop 2) → Leads bytes Shown.crlf

theorem symbols_cons (present : bytes ≠ []) :
    ∃ shown, Leads bytes shown ∧ symbols bytes = shown :: symbols (bytes.drop shown.size) := by
  obtain ⟨first, decoded, fits⟩ := escaped_cons present
  by_cases carriage : first = .char '\r'
  · subst carriage
    rw [symbols, decoded, grouped_cr, show (Escaped.char '\r').size = 1 from rfl]
    by_cases last : bytes.drop 1 = []
    · refine ⟨Shown.cr, .cr decoded (by simp [last]), ?_⟩
      rw [show Shown.cr.size = 1 from rfl, last, escaped_nil, grouped_nil, symbols_nil]
      rfl
    · obtain ⟨second, follows, within⟩ := escaped_cons last
      rw [drop_drop] at follows
      by_cases feed : second = .char '\n'
      · subst feed
        refine ⟨Shown.crlf, .crlf decoded follows, ?_⟩
        rw [follows, grouped_lf]
        rfl
      · refine ⟨Shown.cr, .cr decoded ?_, ?_⟩
        · rw [follows]
          exact fun head => feed (Option.some.inj head)
        · rw [follows, grouped_held feed, ← follows]
          rfl
  · refine ⟨Shown.single first, .single carriage decoded, ?_⟩
    rw [symbols, decoded, grouped_single carriage, single_size]
    rfl

theorem charAt_carriageReturn (begins : bytes.take 2 = 0x0D :: rest) :
    charAt bytes = some '\r' := by
  apply charAt_eq_some.mpr
  cases bytes with
  | nil => simp at begins
  | cons byte bytes =>
    rw [take_succ_cons] at begins
    obtain ⟨rfl, -⟩ := List.cons.inj begins
    exact ⟨bytes, rfl⟩

theorem charAt_lineFeed (bytes : List UInt8) : charAt (0x0A :: bytes) = some '\n' :=
  charAt_eq_some.mpr ⟨bytes, rfl⟩

namespace Leads

variable {bytes : List UInt8} {shown : Shown}

section

variable (leads : Leads bytes shown)
include leads

theorem size_le (present : bytes ≠ []) : shown.size ≤ bytes.length := by
  obtain ⟨first, decoded, fits⟩ := escaped_cons present
  cases leads with
  | single _ again =>
    rw [decoded] at again
    obtain ⟨rfl, -⟩ := List.cons.inj again
    rwa [single_size]
  | cr => exact length_pos_iff.mpr present
  | crlf _ follows =>
    have later := length_pos_iff.mpr (escaped_eq_cons follows).1
    rw [length_drop] at later
    exact show 2 ≤ bytes.length by omega

theorem unspanned (later : Unspanned (bytes.drop shown.size) position) :
    Unspanned bytes (shown.size + position) := by
  cases leads with
  | single _ decoded =>
    rw [single_size] at later ⊢
    exact (unspanned_add decoded).mpr later
  | cr decoded => exact (unspanned_add decoded).mpr later
  | crlf decoded follows =>
    have second := (unspanned_add follows).mpr (by rw [drop_drop]; exact later)
    have both := (unspanned_add decoded).mpr second
    rw [← add_assoc] at both
    exact both

theorem not_split :
    (bytes.drop (shown.size - 1)).take 2 ≠ [0x0D, 0x0A] := by
  intro split
  cases leads with
  | single other decoded =>
    obtain ⟨-, -, found⟩ := escaped_eq_cons decoded
    rw [single_size] at split
    rename_i char
    cases char with
    | byte =>
      rw [Escaped.size, Nat.sub_self, drop_zero] at split
      rw [charAt_carriageReturn split] at found
      cases found
    | char c =>
      by_cases short : c.utf8Size = 1
      · rw [Escaped.size, short, Nat.sub_self, drop_zero] at split
        rw [charAt_carriageReturn split] at found
        exact other (congrArg Escaped.char (Option.some.inj found).symm)
      · have positive := c.utf8Size_pos
        have inside := @charAt_inside _ _ found (c.utf8Size - 1) (by omega) (by omega)
        rw [Escaped.size] at split
        rw [charAt_carriageReturn split] at inside
        cases inside
  | cr _ follows =>
    obtain _ | ⟨_, _ | ⟨byte, rest⟩⟩ := bytes
    · simp [Shown.cr] at split
    · simp [Shown.cr] at split
    · simp only [Shown.cr, Nat.sub_self, drop_zero, take_succ_cons, take_zero,
        List.cons.injEq, and_true] at split
      rw [drop_one, tail_cons, split.2, escaped_char (charAt_lineFeed rest)] at follows
      exact follows rfl
  | crlf _ follows =>
    obtain ⟨-, -, found⟩ := escaped_eq_cons follows
    rw [show Shown.crlf.size - 1 = 1 from rfl] at split
    rw [charAt_carriageReturn split] at found
    cases found

end

end Leads

def shownBytes (shown : List Shown) : Nat :=
  (shown.map Shown.size).sum

theorem symbols_split (split : symbols bytes = before ++ after) :
    after = symbols (bytes.drop (shownBytes before)) ∧ shownBytes before ≤ bytes.length ∧
      Unspanned bytes (shownBytes before) ∧ (0 < shownBytes before →
        (bytes.drop (shownBytes before - 1)).take 2 ≠ [0x0D, 0x0A]) := by
  induction before generalizing bytes with
  | nil =>
    refine ⟨split.symm, Nat.zero_le _, ?_, fun positive => absurd positive (lt_irrefl 0)⟩
    intro start c inside
    exact absurd inside (Nat.not_lt_zero start)
  | cons first before rest =>
    have present : bytes ≠ [] := by
      rintro rfl
      rw [symbols_nil] at split
      cases split
    obtain ⟨shown, leads, again⟩ := symbols_cons present
    rw [again, cons_append] at split
    obtain ⟨rfl, later⟩ := List.cons.inj split
    obtain ⟨remaining, within, unspanned, undivided⟩ := rest later
    have fits := leads.size_le present
    have total : shownBytes (shown :: before) = shown.size + shownBytes before := by
      simp [shownBytes]
    rw [length_drop] at within
    rw [total]
    refine ⟨by rwa [drop_drop] at remaining, by omega, leads.unspanned unspanned, ?_⟩
    intro _
    rcases Nat.eq_zero_or_pos (shownBytes before) with none | positive
    · rw [none]
      exact leads.not_split
    · rw [show shown.size + shownBytes before - 1 = shown.size + (shownBytes before - 1) by omega,
        ← drop_drop]
      exact undivided positive

theorem text_grouped (pendingCr : Bool) (chars : List Escaped) :
    (grouped pendingCr chars).flatMap Shown.text =
      (if pendingCr then ['\r'] else []) ++ chars.flatMap fun char => (Shown.single char).text := by
  induction chars generalizing pendingCr with
  | nil => cases pendingCr <;> rfl
  | cons char rest step =>
    have plain {char : Escaped} : (grouped false (char :: rest)).flatMap Shown.text =
        (Shown.single char).text ++ rest.flatMap fun char => (Shown.single char).text := by
      by_cases carriage : char = .char '\r'
      · rw [carriage, grouped_cr, step]
        rfl
      · rw [grouped_single carriage, flatMap_cons, step]
        rfl
    cases pendingCr with
    | false => exact plain
    | true =>
      by_cases feed : char = .char '\n'
      · rw [feed, grouped_lf, flatMap_cons, step]
        rfl
      · rw [grouped_held feed, flatMap_cons, plain]
        rfl

theorem text_symbols (bytes : List UInt8) : (symbols bytes).flatMap Shown.text = rendering bytes :=
  text_grouped false (escaped bytes)

theorem TextScan.steps_append (bounds : PageBounds) (scan : TextScan) (first rest : List Shown) :
    scan.steps bounds (first ++ rest) = if (scan.steps bounds first).2 then scan.steps bounds first
      else (scan.steps bounds first).1.steps bounds rest := by
  induction first generalizing scan with
  | nil => rfl
  | cons shown first step =>
    simp only [cons_append, TextScan.steps]
    split
    case isTrue => rfl
    case isFalse => exact step _

theorem scanCharacters_content (bounds : PageBounds) (maxScan : Nat) (buffer : List UInt8)
    (pendingCr : Bool) (consumed : Nat) (scan : TextScan) (reader : ReadBudget) :
    (scanCharacters bounds maxScan buffer pendingCr consumed scan reader).reader.content =
      reader.content := by
  fun_induction scanCharacters with
  | case1 => rfl
  | case2 => rfl
  | case3 => exact (read_tell ‹_›).1
  | case4 => exact (read_tell ‹_›).1
  | case5 => exact (read_tell ‹_›).1
  | case6 => exact Eq.trans ‹_› (read_tell ‹_›).1

def settled (pendingCr : Bool) (bytes : List UInt8) : List Shown :=
  (characters pendingCr ((pieces false bytes).1.flatMap Piece.escape)).1

theorem escaped_append (bytes more : List UInt8) : escaped (bytes ++ more) =
      (pieces false bytes).1.flatMap Piece.escape ++ escaped ((pieces false bytes).2 ++ more) := by
  rw [escaped, pieces_append, flatMap_append]
  rfl

theorem settled_append (pendingCr : Bool) (bytes more : List UInt8) :
    settled pendingCr (bytes ++ more) = settled pendingCr bytes ++
      settled (characters pendingCr ((pieces false bytes).1.flatMap Piece.escape)).2
        ((pieces false bytes).2 ++ more) := by
  rw [settled, pieces_append, flatMap_append, characters_append]
  rfl

theorem grouped_escaped_append (pendingCr : Bool) (bytes more : List UInt8) :
    grouped pendingCr (escaped (bytes ++ more)) = settled pendingCr bytes ++
      grouped (characters pendingCr ((pieces false bytes).1.flatMap Piece.escape)).2
        (escaped ((pieces false bytes).2 ++ more)) := by
  rw [escaped_append, grouped, characters_append, append_assoc]
  rfl

def ReadBudget.readable (reader : ReadBudget) (maxScan consumed : Nat) : Nat :=
  min (reader.maximum - reader.bytesRead) (maxScan - consumed)

/-- Whether the loop reaches the end of the stream before a limit ends it. -/
def ReadBudget.Ends (reader : ReadBudget) (maxScan consumed : Nat) : Prop :=
  reader.content.length - reader.tell ≤ reader.maximum - reader.bytesRead ∧
    reader.content.length - reader.tell < maxScan - consumed

theorem ReadBudget.readable_read {reader after : ReadBudget}
    (done : reader.read size = .ok (chunk, after)) (maxScan consumed : Nat) :
    after.readable maxScan (consumed + chunk.length) =
      reader.readable maxScan consumed - chunk.length := by
  obtain ⟨-, -, bytesRead, maximum, -⟩ := read_tell done
  unfold readable
  rw [maximum, bytesRead, ← Nat.sub_sub, ← Nat.sub_sub, Nat.sub_min_sub_right]

theorem ReadBudget.ends_read {reader after : ReadBudget}
    (done : reader.read size = .ok (chunk, after))
    (fits : chunk.length ≤ reader.readable maxScan consumed) :
    after.Ends maxScan (consumed + chunk.length) ↔ reader.Ends maxScan consumed := by
  obtain ⟨content, tell, bytesRead, maximum, read⟩ := read_tell done
  have inside := read.length_le
  rw [length_drop] at inside
  have bounded := Nat.le_min.mp fits
  unfold Ends
  rw [maximum, bytesRead, content, tell, ← Nat.sub_sub, ← Nat.sub_sub, ← Nat.sub_sub,
    Nat.sub_le_sub_iff_right bounded.1, Nat.sub_lt_sub_iff_right inside]

theorem ReadBudget.read_spec (reader : ReadBudget) {size : Nat}
    (within : reader.tell ≤ reader.content.length) (positive : 0 < size) :
    (reader.content.drop reader.tell = [] ∧ ∃ after, reader.read size = .ok ([], after)) ∨
      (reader.content.drop reader.tell ≠ [] ∧ reader.maximum ≤ reader.bytesRead ∧
        reader.read size = .error (fieldInvalid "scan_byte_limit")) ∨
      ∃ chunk rest after, reader.read size = .ok (chunk, after) ∧ chunk ≠ [] ∧
        reader.content.drop reader.tell = chunk ++ rest ∧ after.content.drop after.tell = rest ∧
        chunk.length ≤ min size (reader.maximum - reader.bytesRead) := by
  by_cases ended : reader.content.drop reader.tell = []
  · refine .inl ⟨ended, ?_⟩
    have tell := drop_eq_nil_iff.mp ended
    unfold read
    split
    case isTrue =>
      rw [if_pos (by omega)]
      exact ⟨reader, rfl⟩
    case isFalse =>
      rw [ended, take_nil]
      exact ⟨_, rfl⟩
  · have unread := length_pos_iff.mpr ended
    rw [length_drop] at unread
    refine .inr ?_
    unfold read
    split
    case isTrue spent => exact .inl ⟨ended, spent, if_neg (by omega)⟩
    case isFalse left =>
      refine .inr ⟨_, _, _, rfl, ?_, (take_append_drop _ _).symm, ?_, ?_⟩
      · rw [← length_pos_iff, length_take, length_drop]
        omega
      · rw [drop_drop, length_take, length_drop]
        by_cases short : reader.content.length - reader.tell ≤
            min size (reader.maximum - reader.bytesRead)
        · rw [min_eq_right short, drop_eq_nil_of_le (by dsimp only; omega),
            drop_eq_nil_of_le (by omega)]
        · rw [min_eq_left (by omega)]
      · exact length_take_le _ _

section

variable {maxScan consumed : Nat} {buffer chunk : List UInt8} {pendingCr : Bool}
  {reader after : ReadBudget}

theorem scanCharacters_limit (spent : maxScan ≤ consumed) :
    scanCharacters bounds maxScan buffer pendingCr consumed scan reader =
      ⟨scan, reader, some (fieldInvalid "scan_byte_limit")⟩ := by
  rw [scanCharacters, if_pos spent]

theorem scanCharacters_error (scanning : ¬maxScan ≤ consumed)
    (read : reader.read (min blockBytes (maxScan - consumed)) = .error raised) :
    scanCharacters bounds maxScan buffer pendingCr consumed scan reader =
      ⟨scan, reader, some raised⟩ := by
  rw [scanCharacters, if_neg scanning]
  split
  case h_1 other =>
    rw [read] at other
    cases other
    rfl
  case h_2 other =>
    rw [read] at other
    cases other

theorem scanCharacters_chunk (scanning : ¬maxScan ≤ consumed)
    (read : reader.read (min blockBytes (maxScan - consumed)) = .ok (chunk, after)) :
    scanCharacters bounds maxScan buffer pendingCr consumed scan reader =
      let decoded := (pieces (chunk = []) (buffer ++ chunk)).1.flatMap Piece.escape
      let yielded := (characters pendingCr decoded).1
      let held := (characters pendingCr decoded).2
      if (scan.steps bounds yielded).2 then ⟨(scan.steps bounds yielded).1, after, none⟩
      else if chunk = [] then
        if held then
          ⟨((scan.steps bounds yielded).1.steps bounds [Shown.cr]).1, after, none⟩
        else ⟨(scan.steps bounds yielded).1, after, none⟩
      else scanCharacters bounds maxScan (pieces (chunk = []) (buffer ++ chunk)).2 held
        (consumed + chunk.length) (scan.steps bounds yielded).1 after := by
  rw [scanCharacters, if_neg scanning]
  split
  case h_1 other =>
    rw [read] at other
    cases other
  case h_2 other =>
    rw [read] at other
    cases other
    rfl

end

theorem scanCharacters_spec (bounds : PageBounds) (maxScan : Nat) (buffer : List UInt8)
    (pendingCr : Bool) (consumed : Nat) (scan : TextScan) (reader : ReadBudget)
    (waiting : (pieces false buffer).1 = []) (within : reader.tell ≤ reader.content.length) :
    let unread := reader.content.drop reader.tell
    let sure := settled pendingCr (buffer ++ unread.take (reader.readable maxScan consumed))
    let outcome := scanCharacters bounds maxScan buffer pendingCr consumed scan reader
    (outcome.raised = none ∧ outcome.scan =
        (scan.steps bounds (grouped pendingCr (escaped (buffer ++ unread)))).1 ∧
      ((scan.steps bounds sure).2 = true ∨ reader.Ends maxScan consumed)) ∨
    (outcome.raised = some (fieldInvalid "scan_byte_limit") ∧
      outcome.scan = (scan.steps bounds sure).1 ∧ (scan.steps bounds sure).2 = false ∧
      ¬reader.Ends maxScan consumed) := by
  intro unread sure outcome
  induction left : unread.length using Nat.strong_induction_on
    generalizing buffer pendingCr consumed scan reader with
  | h length shorter =>
    have unreadLength : unread.length = reader.content.length - reader.tell := length_drop
    by_cases spent : maxScan ≤ consumed
    · have nothing : sure = [] := by
        have none : reader.readable maxScan consumed = 0 := by
          unfold readable
          omega
        simp only [sure, settled, none, take_zero, append_nil, waiting]
        rfl
      refine .inr ?_
      simp only [outcome, scanCharacters_limit spent, nothing, TextScan.steps]
      exact ⟨trivial, trivial, trivial, fun ends => by have := ends.2; omega⟩
    rcases @ReadBudget.read_spec reader (min blockBytes (maxScan - consumed)) within
        (Nat.lt_min.mpr ⟨by decide, by omega⟩) with
      ⟨ended, after, read⟩ | ⟨more, exhausted, read⟩ |
      ⟨chunk, rest, after, read, present, cut, later, block⟩
    · have none := congrArg List.length ended
      rw [length_drop, length_nil] at none
      refine .inl ?_
      simp only [outcome, scanCharacters_chunk spent read, unread, ended, append_nil,
        decide_true, grouped, TextScan.steps_append]
      rw [← escaped]
      refine ⟨?_, ?_, .inr ⟨by omega, by omega⟩⟩
      · split_ifs <;> rfl
      · split
        case isTrue => rfl
        case isFalse => cases (characters pendingCr (escaped buffer)).2 <;> rfl
    · have nothing : sure = [] := by
        have none : reader.readable maxScan consumed = 0 := by
          unfold readable
          omega
        simp only [sure, settled, none, take_zero, append_nil, waiting]
        rfl
      refine .inr ?_
      simp only [outcome, scanCharacters_error spent read, nothing, TextScan.steps]
      have some := length_pos_iff.mpr more
      rw [length_drop] at some
      exact ⟨trivial, trivial, trivial, fun ends => by have := ends.1; omega⟩
    · have fits : chunk.length ≤ reader.readable maxScan consumed := by
        unfold readable
        omega
      obtain ⟨content, tell, -, -, -⟩ := read_tell read
      have readable := readable_read read maxScan consumed
      have length := congrArg List.length cut
      rw [length_append, length_drop] at length
      have grown := length_pos_iff.mpr present
      have ends := ends_read read fits
      have taken : unread.take (reader.readable maxScan consumed) =
          chunk ++ rest.take (after.readable maxScan (consumed + chunk.length)) := by
        rw [readable, show unread = chunk ++ rest from cut, take_append,
          take_of_length_le fits]
      have begun : sure = settled pendingCr (buffer ++ chunk) ++ settled (characters pendingCr
            ((pieces false (buffer ++ chunk)).1.flatMap Piece.escape)).2
            ((pieces false (buffer ++ chunk)).2 ++
              rest.take (after.readable maxScan (consumed + chunk.length))) := by
        simp only [sure]
        rw [taken, ← append_assoc, settled_append]
      have yielded : (characters pendingCr ((pieces false (buffer ++ chunk)).1.flatMap
          Piece.escape)).1 = settled pendingCr (buffer ++ chunk) := rfl
      simp only [outcome, scanCharacters_chunk spent read, present, decide_false]
      rw [show unread = chunk ++ rest from cut, ← append_assoc, grouped_escaped_append,
        begun, TextScan.steps_append, TextScan.steps_append]
      simp only [yielded]
      split
      case isTrue stopped => exact .inl ⟨rfl, rfl, .inl stopped⟩
      case isFalse =>
        have step := shorter rest.length (by omega) (pieces false (buffer ++ chunk)).2
          (characters pendingCr ((pieces false (buffer ++ chunk)).1.flatMap Piece.escape)).2
          (consumed + chunk.length) (scan.steps bounds (settled pendingCr (buffer ++ chunk))).1
          after (pieces_kept_again _) (by rw [content, tell]; omega) (by rw [later])
        rw [later, ends] at step
        exact step

end Linktools.Workspace
