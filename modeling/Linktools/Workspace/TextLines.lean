import Linktools.Workspace.TextSymbols

/-! The lines of a text file: what the metadata count block by block, and where a loop over the
symbols stands. -/

namespace Linktools.Workspace

open Library Library.Utf8
open List hiding after

theorem endingEnds_cons (single : first = '\r' → rest = [] → False)
    (pair : ∀ others, first = '\r' → rest = '\n' :: others → False) :
    endingEnds position (first :: rest) =
      if first ∈ lineEndings then (position + 1) :: endingEnds (position + 1) rest
      else endingEnds (position + 1) rest := by
  rw [endingEnds]
  · exact single
  · exact pair

namespace LineCount

def char (count : LineCount) (char : Char) : LineCount where
  lines := count.lines +
    if char ∈ lineEndings ∧ ¬(count.previousCr = true ∧ char = '\n') then 1 else 0
  pending := decide (char ∉ lineEndings)
  previousCr := char == '\r'

variable {count : LineCount}

theorem char_apart (pair : ∀ others, first = '\r' → rest = '\n' :: others → False) :
    ¬((count.char first).previousCr = true ∧ rest.head? = some '\n') := by
  intro ⟨carriage, feed⟩
  obtain ⟨others, rest⟩ := head?_eq_some_iff.mp feed
  exact pair others (by simpa [char] using carriage) rest

theorem foldl_lines (count : LineCount) (position : Nat) (text : List Char)
    (apart : ¬(count.previousCr = true ∧ text.head? = some '\n')) :
    (text.foldl char count).lines = count.lines + (endingEnds position text).length := by
  induction position, text using endingEnds.induct generalizing count with
  | case1 => rfl
  | case2 => simp [char, endingEnds, lineEndings]
  | case3 position rest step =>
    rw [foldl_cons, foldl_cons, step _ (by simp [char]), endingEnds]
    simp [char, lineEndings]
    omega
  | case4 position first rest single pair ending step =>
    have counts : first ∈ lineEndings ∧ ¬(count.previousCr = true ∧ first = '\n') := by
      refine ⟨ending, fun held => apart ⟨held.1, ?_⟩⟩
      rw [held.2]
      rfl
    rw [foldl_cons, step _ (char_apart pair), endingEnds_cons single pair, if_pos ending]
    simp only [char, if_pos counts, length_cons]
    omega
  | case5 position first rest single pair ordinary step =>
    rw [foldl_cons, step _ (char_apart pair), endingEnds_cons single pair, if_neg ordinary]
    simp [char, ordinary]

theorem endingEnds_getLast? (position : Nat) (present : text ≠ []) :
    (endingEnds position text).getLast? = some (position + text.length) ↔
      ∃ last ∈ lineEndings, text.getLast? = some last := by
  have ends {first : Nat} {later : List Nat} {rest : List Char} {last : Nat}
      (bound : first < last) (same : later.getLast? = some last ↔
        ∃ last ∈ lineEndings, rest.getLast? = some last) : (first :: later).getLast? = some last ↔
        ∃ last ∈ lineEndings, rest.getLast? = some last := by
    rw [← same]
    cases later with
    | nil => simpa using Nat.ne_of_lt bound
    | cons => rw [getLast?_cons_cons]
  induction position, text using endingEnds.induct with
  | case1 => contradiction
  | case2 => simp [endingEnds, lineEndings]
  | case3 position rest step =>
    by_cases empty : rest = []
    · subst empty
      simp [endingEnds, lineEndings]
    · have length := length_pos_iff.mpr empty
      obtain ⟨third, others, rfl⟩ := exists_cons_of_ne_nil empty
      rw [endingEnds, getLast?_cons_cons, getLast?_cons_cons]
      simp only [length_cons] at length step ⊢
      rw [show position + (others.length + 1 + 1 + 1) = position + 2 + (others.length + 1) by
        omega]
      exact ends (by omega) (step empty)
  | case4 position first rest single pair ending step =>
    rw [endingEnds_cons single pair, if_pos ending]
    by_cases empty : rest = []
    · subst empty
      simpa [endingEnds] using ending
    · have length := length_pos_iff.mpr empty
      obtain ⟨second, others, rfl⟩ := exists_cons_of_ne_nil empty
      rw [getLast?_cons_cons]
      simp only [length_cons] at length step ⊢
      rw [show position + (others.length + 1 + 1) = position + 1 + (others.length + 1) by omega]
      exact ends (by omega) (step empty)
  | case5 position first rest single pair ordinary step =>
    rw [endingEnds_cons single pair, if_neg ordinary]
    by_cases empty : rest = []
    · subst empty
      simpa [endingEnds] using ordinary
    · obtain ⟨second, others, rfl⟩ := exists_cons_of_ne_nil empty
      rw [getLast?_cons_cons]
      simp only [length_cons] at step ⊢
      rw [show position + (others.length + 1 + 1) = position + 1 + (others.length + 1) by omega]
      exact step empty

theorem foldl_last (count : LineCount) (present : text ≠ []) (position : Nat) :
    (text.foldl char count).pending =
        ((endingEnds position text).getLast? != some (position + text.length)) ∧
      (text.foldl char count).previousCr = (text.getLast? == some '\r') := by
  have last := endingEnds_getLast? position present
  rcases eq_nil_or_concat text with rfl | ⟨others, final, rfl⟩
  · contradiction
  · rw [concat_eq_append] at last ⊢
    rw [foldl_append]
    constructor
    · by_cases ending : final ∈ lineEndings
      · have whole := last.mpr ⟨final, ending, getLast?_concat⟩
        simp [char, ending, whole]
      · have part : (endingEnds position (others ++ [final])).getLast? ≠
            some (position + (others ++ [final]).length) := by
          intro whole
          obtain ⟨last, inside, same⟩ := last.mp whole
          rw [getLast?_concat] at same
          exact ending (Option.some.inj same ▸ inside)
        simp only [foldl_cons, foldl_nil, char, ending, not_false_eq_true, decide_true]
        exact (bne_iff_ne.mpr part).symm
    · simp [char]

def Sound (count : LineCount) : Prop :=
  count.previousCr = true → count.pending = false

theorem Sound.char (first : Char) : (count.char first).Sound := by
  intro carriage
  have same : first = '\r' := by simpa [LineCount.char] using carriage
  simp [LineCount.char, same, lineEndings]

theorem foldl_eq (count : LineCount) (present : text ≠ [])
    (apart : ¬(count.previousCr = true ∧ text.head? = some '\n')) : text.foldl char count =
      { lines := count.lines + (endingEnds 0 text).length
        pending := (endingEnds 0 text).getLast? != some text.length
        previousCr := text.getLast? == some '\r' } := by
  have last := foldl_last count present 0
  rw [zero_add] at last
  have lines := foldl_lines count 0 text apart
  cases counted : text.foldl char count with
  | mk =>
    rw [counted] at last lines
    simp only at last lines
    rw [lines, last.1, last.2]

theorem add_eq_foldl (sound : count.Sound) (text : List Char) :
    count.add text = text.foldl char count := by
  by_cases empty : text = []
  · rw [empty]
    rfl
  rw [add, if_neg empty]
  by_cases skips : count.previousCr = true ∧ text.head? = some '\n'
  · obtain ⟨rest, rfl⟩ := head?_eq_some_iff.mp skips.2
    have skipped : count.char '\n' = { count with previousCr := false } := by
      simp [char, lineEndings, skips.1, sound skips.1]
    rw [if_pos skips, foldl_cons, skipped, tail_cons]
    by_cases last : rest = []
    · rw [last]
      rfl
    · rw [if_neg last, foldl_eq _ last (by simp)]
  · rw [if_neg skips, if_neg empty, foldl_eq _ empty skips]

theorem sound_foldl (sound : count.Sound) (text : List Char) :
    (text.foldl LineCount.char count).Sound := by
  induction text generalizing count with
  | nil => exact sound
  | cons first rest step => exact step (Sound.char first)

end LineCount

section

variable (count : LineCount)
include count

theorem LineCount.replacement_again :
    (count.char '\uFFFD').char '\uFFFD' = count.char '\uFFFD' := by
  simp [LineCount.char, lineEndings]

theorem LineCount.replacements (present : bytes ≠ []) :
    (bytes.flatMap fun byte => (Shown.single (.byte byte)).text).foldl LineCount.char count =
      count.char '\uFFFD' := by
  induction bytes generalizing count with
  | nil => contradiction
  | cons byte rest step =>
    rw [flatMap_cons, foldl_append]
    by_cases last : rest = []
    · rw [last]
      rfl
    · rw [step _ last]
      exact count.replacement_again

theorem LineCount.nul : count.char '\x00' = count.char '\uFFFD' := by
  simp [LineCount.char, lineEndings]

theorem foldl_replaced {decoded : List Piece} (damaged : ∀ piece ∈ decoded, piece ≠ .damaged []) :
    (decoded.map replaced).foldl LineCount.char count =
      ((decoded.flatMap Piece.escape).flatMap fun char => (Shown.single char).text).foldl
        LineCount.char count := by
  induction decoded generalizing count with
  | nil => rfl
  | cons piece rest step =>
    rw [map_cons, foldl_cons, flatMap_cons, flatMap_append,
      foldl_append, step _ fun piece inside => damaged piece (mem_cons_of_mem _ inside)]
    congr 1
    cases piece with
    | char c =>
      by_cases zero : c = '\x00'
      · rw [zero]
        exact count.nul
      · simp [replaced, Piece.escape, Shown.single, zero]
    | damaged bytes =>
      have present : bytes ≠ [] := by
        rintro rfl
        exact damaged _ mem_cons_self rfl
      rw [Piece.escape, flatMap_map]
      exact (count.replacements present).symm

theorem foldl_decoded (bytes : List UInt8) :
    ((pieces true bytes).1.map replaced).foldl LineCount.char count =
      (rendering bytes).foldl LineCount.char count :=
  foldl_replaced count (damaged_nonempty bytes)

end

def totalLines (bytes : List UInt8) : Nat :=
  ((rendering bytes).foldl LineCount.char {}).total

variable {count : LineCount}

theorem metadataBlocks_totalLines (sound : count.Sound)
    (within : reader.tell ≤ reader.content.length)
    (done : metadataBlocks hexdigest buffer count hashed reader = .ok (answer, after)) :
    answer.totalLines = (((pieces true (buffer ++ reader.content.drop reader.tell)).1.map
      replaced).foldl LineCount.char count).total := by
  induction left : (reader.content.drop reader.tell).length using Nat.strong_induction_on
    generalizing buffer count hashed reader with
  | h length shorter =>
    rw [metadataBlocks] at done
    split at done
    case h_1 => cases done
    case h_2 chunk next read =>
      split at done
      case isTrue => cases done
      case isFalse =>
        simp only [LineCount.add_eq_foldl sound] at done
        rcases @ReadBudget.read_spec reader blockBytes within (by decide) with
          ⟨ended, last, again⟩ | ⟨-, -, again⟩ |
          ⟨again, rest, last, found, present, cut, later, -⟩
        · rw [read] at again
          cases again
          rw [if_pos rfl] at done
          cases done
          simp only [ended, append_nil, decide_true]
        · rw [read] at again
          cases again
        · rw [read] at found
          cases found
          obtain ⟨content, tell, -, -, taken⟩ := ReadBudget.read_tell read
          have bound := taken.length_le
          have grown := length_pos_iff.mpr present
          have size := congrArg List.length cut
          rw [length_append] at size
          rw [length_drop] at bound
          rw [if_neg present] at done
          rw [shorter rest.length (by omega) (LineCount.sound_foldl sound _)
            (by rw [content, tell]; omega) done (by rw [later]), later, cut, ← append_assoc]
          simp only [present, decide_false]
          rw [pieces_append true (buffer ++ chunk) rest, map_append, foldl_append]

theorem metadata_totalLines (done : metadata hexdigest reader size = .ok (answer, after)) :
    answer.totalLines = totalLines reader.content := by
  obtain ⟨-, -, done⟩ := bind_eq_ok.mp done
  have lines := metadataBlocks_totalLines (fun held => absurd held Bool.false_ne_true)
    (Nat.zero_le _) done
  rwa [nil_append, ReadBudget.seek, drop_zero, foldl_decoded] at lines

structure Place where
  byte : Nat := 0
  line : Nat := 0
  column : Nat := 0

def Place.past (place : Place) (shown : Shown) : Place :=
  if shown.endsLine then ⟨place.byte + shown.size, place.line + 1, 0⟩
  else ⟨place.byte + shown.size, place.line, place.column + 1⟩

def Place.lines (place : Place) : Nat :=
  place.line + if 0 < place.column then 1 else 0

theorem Place.foldl_byte (place : Place) (shown : List Shown) :
    (shown.foldl past place).byte = place.byte + shownBytes shown := by
  induction shown generalizing place with
  | nil => rfl
  | cons first rest step =>
    rw [foldl_cons, step, shownBytes, shownBytes, map_cons, sum_cons, past]
    split <;> simp only [add_assoc]

def Agrees (pendingCr : Bool) (place : Place) (count : LineCount) : Prop :=
  count = if pendingCr then ⟨place.line + 1, false, true⟩
    else ⟨place.line, decide (0 < place.column), false⟩

def shownChar : Escaped → Char
  | .char c => if c = '\x00' then '\uFFFD' else c
  | .byte _ => '\uFFFD'

theorem single_text (char : Escaped) : (Shown.single char).text = [shownChar char] := by
  cases char with
  | char c =>
    simp only [Shown.single, shownChar]
    split_ifs <;> rfl
  | byte => rfl

theorem single_endsLine (char : Escaped) :
    (Shown.single char).endsLine = decide (shownChar char ∈ lineEndings) := by
  rw [Shown.endsLine, single_text, Bool.eq_iff_iff]
  simp [any_eq_true]

variable {char : Escaped}

theorem shownChar_eq_cr (carriage : shownChar char = '\r') : char = .char '\r' := by
  cases char with
  | char c =>
    simp only [shownChar] at carriage
    split_ifs at carriage
    · cases carriage
    · rw [carriage]
  | byte => cases carriage

theorem shownChar_eq_lf (feed : shownChar char = '\n') : char = .char '\n' := by
  cases char with
  | char c =>
    simp only [shownChar] at feed
    split_ifs at feed
    · cases feed
    · rw [feed]
  | byte => cases feed

variable {place : Place}

theorem Agrees.single (agrees : Agrees false place count) (other : char ≠ .char '\r') :
    Agrees false (place.past (Shown.single char)) (count.char (shownChar char)) := by
  have plain : shownChar char ≠ '\r' := fun carriage => other (shownChar_eq_cr carriage)
  rw [Agrees, if_neg Bool.false_ne_true] at agrees ⊢
  rw [Place.past, single_endsLine, agrees]
  by_cases ending : shownChar char ∈ lineEndings
  · simp [LineCount.char, ending, plain]
  · simp [LineCount.char, ending, plain]

theorem Agrees.held (agrees : Agrees true place count) {char : Char} (other : char ≠ '\n') :
    ∃ before, Agrees false (place.past Shown.cr) before ∧ count.char char = before.char char := by
  refine ⟨_, rfl, ?_⟩
  rw [Agrees, if_pos rfl] at agrees
  have ends : place.past Shown.cr = ⟨place.byte + 1, place.line + 1, 0⟩ := rfl
  rw [agrees, ends]
  simp [LineCount.char, other]

theorem total_grouped (agrees : Agrees pendingCr place count) (chars : List Escaped) :
    ((chars.flatMap fun char => (Shown.single char).text).foldl LineCount.char count).total =
      ((grouped pendingCr chars).foldl Place.past place).lines := by
  induction chars generalizing pendingCr place count with
  | nil =>
    cases pendingCr with
    | false =>
      rw [Agrees, if_neg Bool.false_ne_true] at agrees
      simp [heldBack, LineCount.total, Place.lines, agrees]
    | true =>
      rw [Agrees, if_pos rfl] at agrees
      simp [heldBack, LineCount.total, Place.lines, Place.past, Shown.cr, Shown.endsLine,
        lineEndings, agrees]
  | cons char rest step =>
    rw [flatMap_cons, foldl_append, single_text, foldl_cons, foldl_nil]
    have plain {place : Place} {count : LineCount} (agrees : Agrees false place count) :
        ((rest.flatMap fun char => (Shown.single char).text).foldl LineCount.char
          (count.char (shownChar char))).total =
          ((grouped false (char :: rest)).foldl Place.past place).lines := by
      by_cases carriage : char = .char '\r'
      · rw [carriage, grouped_cr]
        apply step
        rw [Agrees, if_neg Bool.false_ne_true] at agrees
        rw [agrees]
        simp [Agrees, shownChar, LineCount.char, lineEndings]
      · rw [grouped_single carriage, foldl_cons]
        exact step (agrees.single carriage)
    cases pendingCr with
    | false => exact plain agrees
    | true =>
      by_cases feed : char = .char '\n'
      · rw [feed, grouped_lf, foldl_cons]
        apply step
        rw [Agrees, if_pos rfl] at agrees
        rw [agrees]
        simp [Agrees, shownChar, LineCount.char, lineEndings, Place.past, Shown.crlf,
          Shown.endsLine]
      · obtain ⟨before, after, same⟩ := agrees.held fun lf => feed (shownChar_eq_lf lf)
        rw [grouped_held feed, foldl_cons, same]
        exact plain after

theorem totalLines_eq (bytes : List UInt8) :
    totalLines bytes = ((symbols bytes).foldl Place.past {}).lines :=
  total_grouped (show Agrees false {} {} from rfl) (escaped bytes)

end Linktools.Workspace
