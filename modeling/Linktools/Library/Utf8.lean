import Mathlib.Algebra.GroupWithZero.Nat
import Mathlib.Data.List.Infix

namespace Linktools.Library.Utf8

open List

/-! UTF-8 as a decoder reads it: valid characters, and between them the longest pieces of bytes
that begin a character and do not go on with it. A decoder fed in parts keeps back an end that
may still become a character. -/

def charAt (bytes : List UInt8) : Option Char :=
  bytes.toByteArray.utf8DecodeChar? 0

variable {bytes : List UInt8} {c : Char}

theorem charAt_eq_some : charAt bytes = some c ↔ String.utf8EncodeChar c <+: bytes := by
  constructor
  · intro decoded
    obtain ⟨rest, split⟩ := ByteArray.exists_of_utf8DecodeChar?_eq_some decoded
    refine ⟨rest.data.toList, toByteArray_inj.mp ?_⟩
    rw [split, toByteArray_append]
    congr 1
    ext1
    simp
  · intro begins
    obtain ⟨rest, rfl⟩ := begins
    rw [charAt, toByteArray_append, ByteArray.utf8DecodeChar?_utf8EncodeChar_append]

def continues (byte : UInt8) : Bool :=
  0x80 ≤ byte && byte ≤ 0xBF

/-- The length of an encoding that begins with a byte; zero for a byte that begins none. -/
def lengthFor (lead : UInt8) : Nat :=
  if lead < 0x80 then 1
  else if lead < 0xC2 then 0
  else if lead < 0xE0 then 2
  else if lead < 0xF0 then 3
  else if lead < 0xF5 then 4
  else 0

def second (lead byte : UInt8) : Bool :=
  if lead = 0xE0 then 0xA0 ≤ byte && byte ≤ 0xBF
  else if lead = 0xED then 0x80 ≤ byte && byte ≤ 0x9F
  else if lead = 0xF0 then 0x90 ≤ byte && byte ≤ 0xBF
  else if lead = 0xF4 then 0x80 ≤ byte && byte ≤ 0x8F
  else continues byte

def incomplete : List UInt8 → Bool
  | [lead] => 2 ≤ lengthFor lead
  | [lead, byte] => 3 ≤ lengthFor lead && second lead byte
  | [lead, byte, third] => 4 ≤ lengthFor lead && second lead byte && continues third
  | _ => false

variable {byte : UInt8}

theorem continues_iff : continues byte ↔ 0x80 ≤ byte.toNat ∧ byte.toNat ≤ 0xBF := by
  simp only [continues, UInt8.le_iff_toNat_le, UInt8.reduceToNat, Bool.and_eq_true,
    decide_eq_true_eq]

theorem second_iff :
    second lead byte ↔ (0x80 ≤ byte.toNat ∧ byte.toNat ≤ 0xBF) ∧
      (lead.toNat = 0xE0 → 0xA0 ≤ byte.toNat) ∧ (lead.toNat = 0xED → byte.toNat ≤ 0x9F) ∧
      (lead.toNat = 0xF0 → 0x90 ≤ byte.toNat) ∧ (lead.toNat = 0xF4 → byte.toNat ≤ 0x8F) := by
  simp only [second, continues, UInt8.le_iff_toNat_le, ← UInt8.toNat_inj, UInt8.reduceToNat]
  split_ifs <;> simp only [Bool.and_eq_true, decide_eq_true_eq] <;> omega

inductive Encoded : List UInt8 → Prop where
  | one {lead : UInt8} : lengthFor lead = 1 → Encoded [lead]
  | two {lead byte : UInt8} : lengthFor lead = 2 → second lead byte → Encoded [lead, byte]
  | three {lead byte third : UInt8} : lengthFor lead = 3 → second lead byte → continues third →
      Encoded [lead, byte, third]
  | four {lead byte third fourth : UInt8} : lengthFor lead = 4 → second lead byte →
      continues third → continues fourth → Encoded [lead, byte, third, fourth]

theorem encodeChar_encoded (c : Char) : Encoded (String.utf8EncodeChar c) := by
  have valid := c.valid
  simp only [UInt32.isValidChar, Nat.isValidChar] at valid
  have toNat : c.val.toNat = c.toNat := rfl
  rw [toNat] at valid
  unfold String.utf8EncodeChar
  simp only [toNat]
  split
  case isTrue one =>
    apply Encoded.one
    simp only [lengthFor, UInt8.lt_iff_toNat_lt, UInt8.toNat_ofNat', UInt8.reduceToNat]
    rw [if_pos (by omega)]
  case isFalse more =>
    split
    case isTrue two =>
      apply Encoded.two
      · simp only [lengthFor, UInt8.lt_iff_toNat_lt, UInt8.toNat_ofNat', UInt8.reduceToNat]
        rw [if_neg (by omega), if_neg (by omega), if_pos (by omega)]
      · simp only [second_iff, UInt8.toNat_ofNat']
        omega
    case isFalse more =>
      split
      case isTrue three =>
        apply Encoded.three
        · simp only [lengthFor, UInt8.lt_iff_toNat_lt, UInt8.toNat_ofNat', UInt8.reduceToNat]
          rw [if_neg (by omega), if_neg (by omega), if_neg (by omega), if_pos (by omega)]
        · simp only [second_iff, UInt8.toNat_ofNat']
          omega
        · simp only [continues_iff, UInt8.toNat_ofNat']
          omega
      case isFalse four =>
        apply Encoded.four
        · simp only [lengthFor, UInt8.lt_iff_toNat_lt, UInt8.toNat_ofNat', UInt8.reduceToNat]
          rw [if_neg (by omega), if_neg (by omega), if_neg (by omega), if_neg (by omega),
            if_pos (by omega)]
        · simp only [second_iff, UInt8.toNat_ofNat']
          omega
        · simp only [continues_iff, UInt8.toNat_ofNat']
          omega
        · simp only [continues_iff, UInt8.toNat_ofNat']
          omega

theorem continues_of_second (follows : second lead byte) : continues byte := by
  rw [second_iff] at follows
  exact continues_iff.mpr follows.1

theorem lengthFor_of_continues (follows : continues byte) : lengthFor byte = 0 := by
  rw [continues_iff] at follows
  simp only [lengthFor, UInt8.lt_iff_toNat_lt, UInt8.reduceToNat]
  rw [if_neg (by omega), if_pos (by omega)]

theorem charAt_nil : charAt [] = none := by
  apply Option.eq_none_iff_forall_ne_some.mpr
  intro c decoded
  have size := (charAt_eq_some.mp decoded).length_le
  rw [String.length_utf8EncodeChar] at size
  exact not_lt.mpr size c.utf8Size_pos

theorem charAt_append (decoded : charAt bytes = some c)
    (more : List UInt8) : charAt (bytes ++ more) = some c :=
  charAt_eq_some.mpr ((charAt_eq_some.mp decoded).trans (prefix_append _ _))

theorem utf8Size_le_length (decoded : charAt bytes = some c) : c.utf8Size ≤ bytes.length := by
  rw [← String.length_utf8EncodeChar]
  exact (charAt_eq_some.mp decoded).length_le

variable {rest : List UInt8}

theorem Encoded.lengthFor_ne_zero (encoded : Encoded (lead :: rest)) : lengthFor lead ≠ 0 := by
  cases encoded <;> omega

theorem charAt_of_continues (follows : continues byte) (rest : List UInt8) :
    charAt (byte :: rest) = none := by
  apply Option.eq_none_iff_forall_ne_some.mpr
  intro c decoded
  have begins := charAt_eq_some.mp decoded
  have encoded := encodeChar_encoded c
  cases bytes : String.utf8EncodeChar c with
  | nil =>
    rw [bytes] at encoded
    cases encoded
  | cons =>
    rw [bytes] at begins encoded
    obtain ⟨rfl, -⟩ := cons_prefix_cons.mp begins
    exact encoded.lengthFor_ne_zero (lengthFor_of_continues follows)

theorem Encoded.continues_tail (encoded : Encoded (lead :: rest)) (inside : byte ∈ rest) :
    continues byte := by
  cases encoded with
  | one => cases inside
  | two _ follows =>
    rw [mem_singleton] at inside
    exact inside ▸ continues_of_second follows
  | three _ follows third =>
    simp only [mem_cons, not_mem_nil, or_false] at inside
    rcases inside with rfl | rfl
    · exact continues_of_second follows
    · exact third
  | four _ follows third fourth =>
    simp only [mem_cons, not_mem_nil, or_false] at inside
    rcases inside with rfl | rfl | rfl
    · exact continues_of_second follows
    · exact third
    · exact fourth

theorem Encoded.length_le (encoded : Encoded bytes) : bytes.length ≤ 4 := by
  cases encoded <;> simp

variable {part more : List UInt8}

theorem Encoded.incomplete_of_proper (encoded : Encoded (part ++ more))
    (begun : part ≠ []) (unended : more ≠ []) : incomplete part := by
  match part, more, begun, unended with
  | [_], [_], _, _ => cases encoded with | two lead => simp [incomplete, lead]
  | [_], [_, _], _, _ => cases encoded with | three lead => simp [incomplete, lead]
  | [_], [_, _, _], _, _ => cases encoded with | four lead => simp [incomplete, lead]
  | [_, _], [_], _, _ => cases encoded with | three lead follows => simp [incomplete, lead, follows]
  | [_, _], [_, _], _, _ =>
    cases encoded with | four lead follows => simp [incomplete, lead, follows]
  | [_, _, _], [_], _, _ =>
    cases encoded with | four lead follows third => simp [incomplete, lead, follows, third]
  | [_], _ :: _ :: _ :: _ :: _, _, _ => cases encoded
  | [_, _], _ :: _ :: _ :: _, _, _ => cases encoded
  | [_, _, _], _ :: _ :: _, _, _ => cases encoded
  | _ :: _ :: _ :: _ :: _, _ :: _, _, _ =>
    have length := encoded.length_le
    simp only [length_append, length_cons] at length
    omega

theorem incomplete_of_append (whole : incomplete (part ++ more))
    (begun : part ≠ []) : incomplete part := by
  match part, more, begun with
  | part, [], _ => rwa [append_nil] at whole
  | [_], [_], _ => simp [incomplete] at whole ⊢; omega
  | [_], [_, _], _ => simp [incomplete] at whole ⊢; omega
  | [_], _ :: _ :: _ :: _, _ => simp [incomplete] at whole
  | [_, _], [_], _ => simp [incomplete] at whole ⊢; exact ⟨by omega, whole.1.2⟩
  | [_, _], _ :: _ :: _, _ => simp [incomplete] at whole
  | _ :: _ :: _ :: _, _ :: _, _ => simp [incomplete] at whole

inductive Piece where
  | char (c : Char)
  | damaged (bytes : List UInt8)

def errorLength (bytes : List UInt8) : Nat :=
  if incomplete (bytes.take 3) then (bytes.take 3).length
  else if incomplete (bytes.take 2) then (bytes.take 2).length
  else 1

/-- What a decoder that expects more bytes keeps back; the first two bytes of an encoded
surrogate are kept as well. -/
def undecided : List UInt8 → Bool
  | [lead, byte] => incomplete [lead, byte] || lead == 0xED && 0xA0 ≤ byte && byte ≤ 0xBF
  | bytes => incomplete bytes

theorem errorLength_pos (bytes : List UInt8) : 0 < errorLength bytes := by
  unfold errorLength
  split
  case isTrue begins =>
    cases bytes with
    | nil => simp [incomplete] at begins
    | cons => simp
  case isFalse =>
    split
    case isTrue begins =>
      cases bytes with
      | nil => simp [incomplete] at begins
      | cons => simp
    case isFalse => exact Nat.one_pos

/-- The decoded pieces, and the bytes that are kept back where more may follow. -/
def pieces (final : Bool) (bytes : List UInt8) : List Piece × List UInt8 :=
  if bytes = [] then ([], [])
  else match charAt bytes with
    | some c =>
      let (decoded, kept) := pieces final (bytes.drop c.utf8Size)
      (.char c :: decoded, kept)
    | none =>
      if !final && undecided bytes then ([], bytes)
      else
        let (decoded, kept) := pieces final (bytes.drop (errorLength bytes))
        (.damaged (bytes.take (errorLength bytes)) :: decoded, kept)
termination_by bytes.length
decreasing_by
  all_goals
    have present := length_pos_iff.mpr ‹bytes ≠ []›
    rw [length_drop]
  · exact Nat.sub_lt present c.utf8Size_pos
  · exact Nat.sub_lt present (errorLength_pos bytes)

@[simp] theorem pieces_nil (final : Bool) : pieces final [] = ([], []) := by
  rw [pieces, if_pos rfl]

variable {final : Bool}

theorem pieces_char (decoded : charAt bytes = some c) :
    pieces final bytes = (.char c :: (pieces final (bytes.drop c.utf8Size)).1,
      (pieces final (bytes.drop c.utf8Size)).2) := by
  have present : bytes ≠ [] := by
    rintro rfl
    cases charAt_nil.symm.trans decoded
  rw [pieces, if_neg present, decoded]

theorem pieces_damaged (present : bytes ≠ []) (invalid : charAt bytes = none)
    (decided : (!final && undecided bytes) = false) :
    pieces final bytes = (.damaged (bytes.take (errorLength bytes)) ::
          (pieces final (bytes.drop (errorLength bytes))).1,
        (pieces final (bytes.drop (errorLength bytes))).2) := by
  rw [pieces, if_neg present, invalid]
  simp [decided]

theorem pieces_kept (invalid : charAt bytes = none)
    (kept : undecided bytes = true) : pieces false bytes = ([], bytes) := by
  rw [pieces]
  split
  case isTrue empty => rw [empty]
  case isFalse => simp [invalid, kept]

theorem undecided_of_incomplete (begins : incomplete bytes) : undecided bytes := by
  unfold undecided
  split
  · rw [begins, Bool.true_or]
  · exact begins

theorem undecided_of_append (whole : undecided (part ++ more))
    (begun : part ≠ []) : undecided part := by
  match part, more, begun with
  | part, [], _ => rwa [append_nil] at whole
  | [lead], [byte], _ =>
    simp only [cons_append, nil_append, undecided, Bool.or_eq_true,
      Bool.and_eq_true, beq_iff_eq] at whole
    rcases whole with whole | ⟨⟨rfl, -⟩, -⟩
    · exact @incomplete_of_append [lead] [byte] whole (cons_ne_nil _ _)
    · rfl
  | [lead], [byte, third], _ =>
    exact @incomplete_of_append [lead] [byte, third] whole (cons_ne_nil _ _)
  | [_], _ :: _ :: _ :: _, _ => simp [undecided, incomplete] at whole
  | [lead, byte], [third], _ =>
    exact undecided_of_incomplete
      (@incomplete_of_append [lead, byte] [third] whole (cons_ne_nil _ _))
  | [_, _], _ :: _ :: _, _ => simp [undecided, incomplete] at whole
  | _ :: _ :: _ :: _, _ :: _, _ => simp [undecided, incomplete] at whole

theorem charAt_append_of_decided (present : bytes ≠ [])
    (invalid : charAt bytes = none) (decided : undecided bytes = false) (more : List UInt8) :
    charAt (bytes ++ more) = none := by
  apply Option.eq_none_iff_forall_ne_some.mpr
  intro c decoded
  have begins := charAt_eq_some.mp decoded
  rcases prefix_or_prefix_of_prefix begins (prefix_append bytes more) with inside | cut
  · rw [charAt_eq_some.mpr inside] at invalid
    cases invalid
  · obtain ⟨rest, split⟩ := cut
    cases rest with
    | nil =>
      rw [append_nil] at split
      rw [split, charAt_eq_some.mpr prefix_rfl] at invalid
      cases invalid
    | cons =>
      have encoded := encodeChar_encoded c
      rw [← split] at encoded
      have begins := undecided_of_incomplete
        (encoded.incomplete_of_proper present (cons_ne_nil _ _))
      rw [begins] at decided
      cases decided

theorem errorLength_append (present : bytes ≠ [])
    (decided : undecided bytes = false) (more : List UInt8) :
    errorLength (bytes ++ more) = errorLength bytes := by
  have short {limit : Nat} (positive : 0 < limit) (within : bytes.length < limit) :
      incomplete ((bytes ++ more).take limit) = false := by
    by_contra begins
    rw [Bool.not_eq_false, take_append, take_of_length_le (le_of_lt within)] at begins
    rw [undecided_of_incomplete (incomplete_of_append begins present)] at decided
    cases decided
  have whole {limit : Nat} (within : bytes.length < limit) :
      incomplete (bytes.take limit) = false := by
    by_contra begins
    rw [Bool.not_eq_false, take_of_length_le (le_of_lt within)] at begins
    rw [undecided_of_incomplete begins] at decided
    cases decided
  unfold errorLength
  by_cases three : 3 ≤ bytes.length
  · rw [take_append_of_le_length three, take_append_of_le_length (by omega)]
  · rw [short (by omega) (by omega), whole (by omega)]
    by_cases two : 2 ≤ bytes.length
    · rw [if_neg Bool.false_ne_true, if_neg Bool.false_ne_true, take_append_of_le_length two]
    · rw [short (by omega) (by omega), whole (by omega)]
      rfl

theorem errorLength_le (present : bytes ≠ []) : errorLength bytes ≤ bytes.length := by
  have positive := length_pos_iff.mpr present
  unfold errorLength
  split_ifs
  · exact length_take_le' _ _
  · exact length_take_le' _ _
  · exact positive

variable {motive : List UInt8 → Prop}

theorem pieces_induction (final : Bool) (nil : motive [])
    (char : ∀ bytes c, charAt bytes = some c → motive (bytes.drop c.utf8Size) → motive bytes)
    (kept : ∀ bytes, charAt bytes = none → (!final && undecided bytes) = true → motive bytes)
    (damaged : ∀ bytes, bytes ≠ [] → charAt bytes = none → (!final && undecided bytes) = false →
      motive (bytes.drop (errorLength bytes)) → motive bytes) (bytes : List UInt8) :
    motive bytes := by
  induction size : bytes.length using Nat.strong_induction_on generalizing bytes with
  | h length shorter =>
    by_cases present : bytes = []
    · rwa [present]
    have positive := length_pos_iff.mpr present
    cases decoded : charAt bytes with
    | some c =>
      refine char bytes c decoded (shorter _ ?_ _ rfl)
      rw [length_drop, ← size]
      exact Nat.sub_lt positive c.utf8Size_pos
    | none =>
      cases waits : !final && undecided bytes with
      | true => exact kept bytes decoded waits
      | false =>
        refine damaged bytes present decoded waits (shorter _ ?_ _ rfl)
        rw [length_drop, ← size]
        exact Nat.sub_lt positive (errorLength_pos bytes)

theorem pieces_append (final : Bool) (bytes more : List UInt8) : pieces final (bytes ++ more) =
      ((pieces false bytes).1 ++ (pieces final ((pieces false bytes).2 ++ more)).1,
        (pieces final ((pieces false bytes).2 ++ more)).2) := by
  induction bytes using pieces_induction false with
  | nil =>
    rw [pieces_nil, nil_append]
    rfl
  | char bytes c decoded later =>
    rw [pieces_char (charAt_append decoded more), pieces_char decoded,
      drop_append_of_le_length (utf8Size_le_length decoded), later]
    rfl
  | kept bytes invalid waits =>
    rw [pieces_kept invalid waits]
    rfl
  | damaged bytes present invalid decided later =>
    have fits := errorLength_le present
    have settled : (!final && undecided (bytes ++ more)) = false := by
      by_contra waits
      rw [Bool.not_eq_false, Bool.and_eq_true] at waits
      rw [undecided_of_append waits.2 present] at decided
      cases decided
    rw [pieces_damaged (append_ne_nil_of_left_ne_nil present more)
        (charAt_append_of_decided present invalid decided more) settled,
      pieces_damaged present invalid decided, errorLength_append present decided,
      drop_append_of_le_length fits, take_append_of_le_length fits, later]
    rfl

theorem pieces_kept_again (bytes : List UInt8) : (pieces false (pieces false bytes).2).1 = [] := by
  have again := congrArg Prod.fst (pieces_append false bytes [])
  rw [append_nil, append_nil] at again
  exact self_eq_append_right.mp again

theorem damaged_nonempty (bytes : List UInt8) :
    ∀ piece ∈ (pieces true bytes).1, piece ≠ .damaged [] := by
  induction bytes using pieces_induction true with
  | nil =>
    rw [pieces_nil]
    exact fun _ inside => absurd inside not_mem_nil
  | char bytes c decoded later =>
    rw [pieces_char decoded]
    exact forall_mem_cons.mpr ⟨Piece.noConfusion, later⟩
  | kept _ _ waits => cases waits
  | damaged bytes present invalid decided later =>
    rw [pieces_damaged present invalid decided]
    refine forall_mem_cons.mpr ⟨fun empty => ?_, later⟩
    have none := congrArg List.length (Piece.damaged.inj empty)
    have positive := errorLength_pos bytes
    have present := length_pos_iff.mpr present
    rw [length_take, length_nil] at none
    omega

inductive Escaped where
  | char (c : Char)
  | byte (byte : UInt8)
  deriving DecidableEq

def Piece.escape : Piece → List Escaped
  | .char c => [.char c]
  | .damaged bytes => bytes.map .byte

def Escaped.size : Escaped → Nat
  | .char c => c.utf8Size
  | .byte _ => 1

def Escaped.char? : Escaped → Option Char
  | .char c => some c
  | .byte _ => none

theorem Escaped.size_pos (escaped : Escaped) : 0 < escaped.size := by
  cases escaped with
  | char c => exact c.utf8Size_pos
  | byte => exact Nat.one_pos

def escaped (bytes : List UInt8) : List Escaped :=
  (pieces true bytes).1.flatMap Piece.escape

@[simp] theorem escaped_nil : escaped [] = [] := by
  simp [escaped]

theorem escaped_char (decoded : charAt bytes = some c) :
    escaped bytes = .char c :: escaped (bytes.drop c.utf8Size) := by
  rw [escaped, pieces_char decoded, flatMap_cons]
  rfl

theorem errorLength_of_continues (follows : continues byte)
    (rest : List UInt8) : errorLength (byte :: rest) = 1 := by
  have none {part : List UInt8} : incomplete (byte :: part) = false := by
    by_contra begins
    rw [Bool.not_eq_false] at begins
    have lead := @incomplete_of_append [byte] part begins (cons_ne_nil _ _)
    simp only [incomplete, lengthFor_of_continues follows, decide_eq_true_eq] at lead
    omega
  unfold errorLength
  rw [take_succ_cons, take_succ_cons, none, none]
  rfl

theorem escaped_of_continues (follows : continues byte) (rest : List UInt8) :
    escaped (byte :: rest) = .byte byte :: escaped rest := by
  rw [escaped, pieces_damaged (cons_ne_nil _ _) (charAt_of_continues follows rest) rfl,
    errorLength_of_continues follows, flatMap_cons]
  rfl

theorem escaped_byte (invalid : charAt (byte :: rest) = none) :
    escaped (byte :: rest) = .byte byte :: escaped rest := by
  rw [escaped, pieces_damaged (cons_ne_nil _ _) invalid rfl, flatMap_cons, ← escaped]
  unfold errorLength
  split
  case isTrue begins =>
    match rest with
    | [] => rfl
    | [follower] =>
      have follows := continues_of_second (Bool.and_eq_true_iff.mp begins).2
      rw [escaped_of_continues follows]
      rfl
    | follower :: third :: rest =>
      simp only [take_succ_cons, take_zero, incomplete, Bool.and_eq_true] at begins
      rw [escaped_of_continues (continues_of_second begins.1.2), escaped_of_continues begins.2]
      rfl
  case isFalse =>
    split
    case isTrue begins =>
      match rest with
      | [] => rfl
      | follower :: rest =>
        have follows := continues_of_second (Bool.and_eq_true_iff.mp begins).2
        rw [escaped_of_continues follows]
        rfl
    case isFalse => rfl

theorem size_damaged (part : List UInt8) :
    ((part.map Escaped.byte).map Escaped.size).sum = part.length := by
  induction part with
  | nil => rfl
  | cons byte rest step =>
    rw [map_cons, map_cons, sum_cons, step, length_cons]
    exact add_comm _ _

theorem size_pieces (final : Bool) (bytes : List UInt8) :
    (((pieces final bytes).1.flatMap Piece.escape).map Escaped.size).sum +
      (pieces final bytes).2.length = bytes.length := by
  induction bytes using pieces_induction final with
  | nil =>
    rw [pieces_nil]
    rfl
  | char bytes c decoded later =>
    have fits := utf8Size_le_length decoded
    rw [pieces_char decoded, flatMap_cons, map_append, sum_append]
    simp only [Piece.escape, map_cons, map_nil, sum_singleton, Escaped.size]
    rw [length_drop] at later
    omega
  | kept bytes invalid waits =>
    obtain ⟨notFinal, waits⟩ := Bool.and_eq_true_iff.mp waits
    obtain rfl : final = false := by simpa using notFinal
    rw [pieces_kept invalid waits]
    exact zero_add _
  | damaged bytes present invalid decided later =>
    have fits := errorLength_le present
    rw [pieces_damaged present invalid decided, flatMap_cons, map_append,
      sum_append, Piece.escape, size_damaged, length_take]
    rw [length_drop] at later
    dsimp only
    omega

theorem length_of_undecided (waits : undecided bytes) : bytes.length ≤ 3 := by
  match bytes with
  | [] => exact Nat.zero_le _
  | [_] => exact Nat.le_add_left 1 2
  | [_, _] => exact Nat.le_add_left 2 1
  | [_, _, _] => exact le_refl 3
  | _ :: _ :: _ :: _ :: _ => simp [undecided, incomplete] at waits

theorem length_kept (bytes : List UInt8) : (pieces false bytes).2.length ≤ 3 := by
  have again := pieces_kept_again bytes
  generalize (pieces false bytes).2 = kept at again
  by_cases empty : kept = []
  · rw [empty]
    exact Nat.zero_le 3
  cases decoded : charAt kept with
  | some c =>
    rw [pieces_char decoded] at again
    cases again
  | none =>
    cases waits : undecided kept with
    | true => exact length_of_undecided waits
    | false =>
      rw [pieces_damaged empty decoded (by rw [waits, Bool.and_false])] at again
      cases again

theorem decoding_induction (nil : motive [])
    (char : ∀ bytes c, charAt bytes = some c → motive (bytes.drop c.utf8Size) → motive bytes)
    (byte : ∀ byte rest, charAt (byte :: rest) = none → motive rest → motive (byte :: rest))
    (bytes : List UInt8) : motive bytes := by
  induction size : bytes.length using Nat.strong_induction_on generalizing bytes with
  | h length shorter =>
    cases bytes with
    | nil => exact nil
    | cons first rest =>
      cases decoded : charAt (first :: rest) with
      | some c =>
        apply char _ c decoded
        apply shorter _ _ _ rfl
        rw [length_drop, size]
        have := c.utf8Size_pos
        rw [length_cons] at size
        omega
      | none =>
        apply byte _ _ decoded
        apply shorter _ _ _ rfl
        rw [length_cons] at size
        omega

theorem escaped_cons (present : bytes ≠ []) :
    ∃ first, escaped bytes = first :: escaped (bytes.drop first.size) ∧
      first.size ≤ bytes.length := by
  cases decoded : charAt bytes with
  | some c => exact ⟨.char c, escaped_char decoded, utf8Size_le_length decoded⟩
  | none =>
    cases bytes with
    | nil => contradiction
    | cons byte rest => exact ⟨.byte byte, escaped_byte decoded, Nat.le_add_left _ _⟩

def Unspanned (bytes : List UInt8) (position : Nat) : Prop :=
  ∀ start c, start < position → charAt (bytes.drop start) = some c → start + c.utf8Size ≤ position

theorem Unspanned.slice {start boundary : Nat} (unspanned : Unspanned bytes (start + boundary))
    (length : Nat) : Unspanned ((bytes.drop start).take length) boundary := by
  intro before c inside decoded
  have whole : charAt (bytes.drop (start + before)) = some c := by
    apply charAt_eq_some.mpr
    rw [← drop_drop]
    apply (charAt_eq_some.mp decoded).trans
    rw [drop_take]
    exact take_prefix _ _
  have := unspanned (start + before) c (by omega) whole
  omega

def boundaries : List Escaped → List Nat
  | [] => [0]
  | first :: rest => 0 :: (boundaries rest).map (first.size + ·)

theorem zero_mem_boundaries (decoded : List Escaped) : 0 ∈ boundaries decoded := by
  cases decoded <;> simp [boundaries]

variable {position : Nat} {first : Escaped}

theorem mem_boundaries_cons {rest : List Escaped} : position ∈ boundaries (first :: rest) ↔
      position = 0 ∨ first.size ≤ position ∧ position - first.size ∈ boundaries rest := by
  simp only [boundaries, mem_cons, mem_map]
  apply or_congr_right
  constructor
  · rintro ⟨later, inside, rfl⟩
    exact ⟨Nat.le_add_right _ _, by rwa [Nat.add_sub_cancel_left]⟩
  · intro inside
    exact ⟨_, inside.2, Nat.add_sub_cancel' inside.1⟩

theorem charAt_inside {bytes : List UInt8} {c : Char} (decoded : charAt bytes = some c)
    {start : Nat} (after : 0 < start) (inside : start < c.utf8Size) :
    charAt (bytes.drop start) = none := by
  obtain ⟨rest, rfl⟩ := charAt_eq_some.mp decoded
  have encoded := encodeChar_encoded c
  have length := String.length_utf8EncodeChar c
  rw [drop_append_of_le_length (by omega)]
  cases bytes : String.utf8EncodeChar c with
  | nil =>
    rw [bytes] at encoded
    cases encoded
  | cons =>
    rw [bytes] at encoded length
    rw [length_cons] at length
    obtain ⟨before, rfl⟩ := Nat.exists_eq_add_of_le' after
    rw [drop_succ_cons, drop_eq_getElem_cons (by omega), cons_append]
    exact charAt_of_continues (encoded.continues_tail (getElem_mem _)) _

theorem unspanned_char (decoded : charAt bytes = some c) (positive : 0 < position) :
    Unspanned bytes position ↔
      c.utf8Size ≤ position ∧ Unspanned (bytes.drop c.utf8Size) (position - c.utf8Size) := by
  constructor
  · intro unspanned
    have fits := unspanned 0 c positive decoded
    rw [zero_add] at fits
    refine ⟨fits, ?_⟩
    intro start other inside later
    rw [drop_drop] at later
    have := unspanned _ other (by omega) later
    omega
  · intro ⟨fits, unspanned⟩ start other inside later
    rcases Nat.eq_zero_or_pos start with rfl | after
    · rw [drop_zero, decoded] at later
      cases later
      rwa [zero_add]
    · by_cases within : start < c.utf8Size
      · rw [charAt_inside decoded after within] at later
        cases later
      · have := unspanned (start - c.utf8Size) other (by omega)
          (by rwa [drop_drop, Nat.add_sub_cancel' (not_lt.mp within)])
        omega

theorem unspanned_byte (invalid : charAt (byte :: rest) = none) :
    Unspanned (byte :: rest) (position + 1) ↔ Unspanned rest position := by
  constructor
  · intro unspanned start c inside later
    have := unspanned (start + 1) c (by omega) later
    omega
  · intro unspanned start c inside later
    cases start with
    | zero =>
      rw [drop_zero, invalid] at later
      cases later
    | succ before =>
      have := unspanned before c (by omega) later
      omega

theorem escaped_eq_cons {rest : List Escaped} (decoded : escaped bytes = first :: rest) :
    bytes ≠ [] ∧ rest = escaped (bytes.drop first.size) ∧ charAt bytes = first.char? := by
  have present : bytes ≠ [] := by
    rintro rfl
    rw [escaped_nil] at decoded
    cases decoded
  refine ⟨present, ?_⟩
  cases found : charAt bytes with
  | some c =>
    rw [escaped_char found] at decoded
    obtain ⟨rfl, rfl⟩ := List.cons.inj decoded
    exact ⟨rfl, rfl⟩
  | none =>
    cases bytes with
    | nil => contradiction
    | cons =>
      rw [escaped_byte found] at decoded
      obtain ⟨rfl, rfl⟩ := List.cons.inj decoded
      exact ⟨rfl, rfl⟩

theorem unspanned_add {rest : List Escaped} (decoded : escaped bytes = first :: rest) :
    Unspanned bytes (first.size + position) ↔ Unspanned (bytes.drop first.size) position := by
  obtain ⟨present, -, found⟩ := escaped_eq_cons decoded
  cases first with
  | char c =>
    change Unspanned bytes (c.utf8Size + position) ↔ Unspanned (bytes.drop c.utf8Size) position
    rw [unspanned_char found (Nat.add_pos_left c.utf8Size_pos _), Nat.add_sub_cancel_left]
    exact and_iff_right (Nat.le_add_right _ _)
  | byte =>
    cases bytes with
    | nil => contradiction
    | cons =>
      rw [Escaped.size, add_comm, unspanned_byte found]
      rfl

theorem mem_boundaries_iff (bytes : List UInt8) (within : position ≤ bytes.length) :
    position ∈ boundaries (escaped bytes) ↔ Unspanned bytes position := by
  induction bytes using decoding_induction generalizing position with
  | nil =>
    rw [Nat.le_zero.mp within]
    simp [boundaries, Unspanned]
  | char bytes c decoded rest =>
    rcases Nat.eq_zero_or_pos position with rfl | positive
    · simp [zero_mem_boundaries, Unspanned]
    · rw [escaped_char decoded, mem_boundaries_cons, unspanned_char decoded positive,
        Escaped.size, ← rest (by rw [length_drop]; omega)]
      simp [Nat.ne_of_gt positive]
  | byte byte bytes invalid rest =>
    cases position with
    | zero => simp [zero_mem_boundaries, Unspanned]
    | succ before =>
      rw [escaped_byte invalid, mem_boundaries_cons, unspanned_byte invalid,
        ← rest (Nat.le_of_succ_le_succ within)]
      simp [Escaped.size]

end Linktools.Library.Utf8
