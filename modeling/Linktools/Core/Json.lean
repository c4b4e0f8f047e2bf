import Mathlib.Algebra.GroupWithZero.Nat
import Mathlib.Data.List.Sort

namespace Linktools.Core

open List

/-! JSON values as the durable records carry them.  A finite float is the
rational number it denotes, since records are compared by numeric value. -/

inductive JsonValue where
  | null
  | bool (value : Bool)
  | int (value : Int)
  | float (value : Rat)
  | str (value : String)
  | arr (items : List JsonValue)
  | obj (fields : List (String × JsonValue))

abbrev JsonMapping := List (String × JsonValue)

namespace JsonValue

def number? : JsonValue → Option Rat
  | .bool value => some (if value then 1 else 0)
  | .int value => some value
  | .float value => some value
  | _ => none

mutual
def same : JsonValue → JsonValue → Bool
  | .null, .null => true
  | .str left, .str right => left == right
  | .arr left, .arr right => sameItems left right
  | .obj left, .obj right =>
    left.length == right.length && sameFields [] left right
  | left, right =>
    match left.number?, right.number? with
    | some left, some right => left == right
    | _, _ => false

def sameItems : List JsonValue → List JsonValue → Bool
  | [], [] => true
  | left :: lefts, right :: rights => same left right && sameItems lefts rights
  | _, _ => false

/-- Every field of the left object has an equal field in the right one.  As for a
lookup, the first entry of a key counts, and a key in `seen` had one before. -/
def sameFields : List String → JsonMapping → JsonMapping → Bool
  | _, [], _ => true
  | seen, (key, left) :: lefts, rights =>
    (seen.contains key ||
      match rights.lookup key with
      | some right => same left right
      | none => false) && sameFields (key :: seen) lefts rights
end

mutual
theorem same_refl : (value : JsonValue) → same value value = true
  | .null => by simp [same]
  | .bool value => by simp [same, number?]
  | .int value => by simp [same, number?]
  | .float value => by simp [same, number?]
  | .str value => by simp [same]
  | .arr items => by simp only [same, sameItems_refl items]
  | .obj fields => by
    simp only [same, beq_self_eq_true, Bool.true_and]
    exact sameFields_append [] fields [] (by simp)

theorem sameItems_refl : (items : List JsonValue) → sameItems items items = true
  | [] => by simp [sameItems]
  | item :: items => by
    simp only [sameItems, same_refl item, sameItems_refl items, Bool.and_self]

theorem sameFields_append : (before fields : JsonMapping) → (seen : List String) →
    (∀ field ∈ before, field.1 ∈ seen) → sameFields seen fields (before ++ fields) = true
  | _, [], _, _ => by simp [sameFields]
  | before, (key, value) :: fields, seen, hidden => by
    have rest := sameFields_append (before ++ [(key, value)]) fields (key :: seen)
      (by
        intro field member
        rcases mem_append.mp member with earlier | last
        · exact mem_cons_of_mem _ (hidden field earlier)
        · simp_all)
    rw [append_assoc, singleton_append] at rest
    simp only [sameFields, rest, Bool.and_true]
    by_cases known : key ∈ seen
    · simp [known]
    · have absent : before.lookup key = none :=
        lookup_eq_none_iff.mpr fun field member =>
          bne_iff_ne.mpr fun equal => known (by
            rw [equal]
            exact hidden field member)
      have first : (before ++ (key, value) :: fields).lookup key = some value := by
        simp [lookup_append, absent]
      simp [first, same_refl value]
end

mutual
/-- Equality of the values as they are written, where `same` compares numbers. -/
def beq : JsonValue → JsonValue → Bool
  | .null, .null => true
  | .bool left, .bool right => left == right
  | .int left, .int right => left == right
  | .float left, .float right => left == right
  | .str left, .str right => left == right
  | .arr left, .arr right => beqItems left right
  | .obj left, .obj right => beqFields left right
  | _, _ => false

def beqItems : List JsonValue → List JsonValue → Bool
  | [], [] => true
  | left :: lefts, right :: rights => beq left right && beqItems lefts rights
  | _, _ => false

def beqFields : JsonMapping → JsonMapping → Bool
  | [], [] => true
  | (key, left) :: lefts, (other, right) :: rights =>
    key == other && beq left right && beqFields lefts rights
  | _, _ => false
end

mutual
theorem beq_iff_eq : (left right : JsonValue) → (beq left right = true ↔ left = right)
  | .null, right => by cases right <;> simp [beq]
  | .bool left, right => by cases right <;> simp [beq]
  | .int left, right => by cases right <;> simp [beq]
  | .float left, right => by cases right <;> simp [beq]
  | .str left, right => by cases right <;> simp [beq]
  | .arr left, right => by
    cases right with
    | arr right => simp [beq, beqItems_iff_eq left right]
    | _ => simp [beq]
  | .obj left, right => by
    cases right with
    | obj right => simp [beq, beqFields_iff_eq left right]
    | _ => simp [beq]

theorem beqItems_iff_eq : (left right : List JsonValue) →
    (beqItems left right = true ↔ left = right)
  | [], right => by cases right <;> simp [beqItems]
  | left :: lefts, right => by
    cases right with
    | nil => simp [beqItems]
    | cons right rights => simp [beqItems, beq_iff_eq left right, beqItems_iff_eq lefts rights]

theorem beqFields_iff_eq : (left right : JsonMapping) → (beqFields left right = true ↔ left = right)
  | [], right => by cases right <;> simp [beqFields]
  | (key, left) :: lefts, right => by
    cases right with
    | nil => simp [beqFields]
    | cons right rights =>
      simp [beqFields, beq_iff_eq left right.2, beqFields_iff_eq lefts rights, Prod.ext_iff]
end

instance : DecidableEq JsonValue := fun left right =>
  decidable_of_iff (beq left right = true) (beq_iff_eq left right)

def string? : JsonValue → Option String
  | .str value => some value
  | _ => none

end JsonValue

namespace JsonMapping

def same (left right : JsonMapping) : Bool :=
  left.length == right.length && JsonValue.sameFields [] left right

theorem same_refl (mapping : JsonMapping) : mapping.same mapping = true := by
  simp only [same, beq_self_eq_true, Bool.true_and]
  exact JsonValue.sameFields_append [] mapping [] (by simp)

def get (mapping : JsonMapping) (key : String) : Option JsonValue :=
  mapping.lookup key

def storable (mapping : JsonMapping) : Bool :=
  mapping.all fun entry => entry.1 ≠ ""

end JsonMapping

def escapeChar (char : Char) : String :=
  if char = '"' then "\\\""
  else if char = '\\' then "\\\\"
  else if char = '\n' then "\\n"
  else if char = '\r' then "\\r"
  else if char = '\t' then "\\t"
  else if char.toNat = 8 then "\\b"
  else if char.toNat = 12 then "\\f"
  else if char.toNat < 16 then "\\u000" ++ String.singleton (Nat.digitChar char.toNat)
  else if char.toNat < 32 then "\\u001" ++ String.singleton (Nat.digitChar (char.toNat - 16))
  else String.singleton char

def quoted (text : String) : String :=
  "\"" ++ String.join (text.toList.map escapeChar) ++ "\""

def joined : List String → String
  | [] => ""
  | [text] => text
  | text :: texts => text ++ "," ++ joined texts

variable (floatText : Rat → String)

mutual
def dumps : JsonValue → String
  | .null => "null"
  | .bool value => if value then "true" else "false"
  | .int value => toString value
  | .float value => floatText value
  | .str value => quoted value
  | .arr items => "[" ++ joined (dumpsItems items) ++ "]"
  | .obj fields =>
    let sorted := (dumpsFields fields).insertionSort fun left right => left.1 ≤ right.1
    "\x7b" ++ joined (sorted.map fun field => quoted field.1 ++ ":" ++ field.2) ++ "\x7d"

def dumpsItems : List JsonValue → List String
  | [] => []
  | item :: items => dumps item :: dumpsItems items

def dumpsFields : JsonMapping → List (String × String)
  | [] => []
  | (key, value) :: fields => (key, dumps value) :: dumpsFields fields
end

def utf8 (text : String) : List UInt8 :=
  text.toUTF8.data.toList

def canonicalJsonBytes (value : JsonValue) : List UInt8 :=
  utf8 (dumps floatText value)

theorem dumpsItems_eq_map (items : List JsonValue) :
    dumpsItems floatText items = items.map (dumps floatText) := by
  induction items with
  | nil => simp [dumpsItems]
  | cons item items induction => rw [dumpsItems, induction, map_cons]

@[simp] theorem utf8_append (front back : String) :
    utf8 (front ++ back) = utf8 front ++ utf8 back := by
  simp [utf8]

def joinedBytes : List (List UInt8) → List UInt8
  | [] => []
  | [bytes] => bytes
  | bytes :: rest => bytes ++ utf8 "," ++ joinedBytes rest

theorem joinedBytes_cons (bytes : List UInt8) (rest : List (List UInt8)) :
    joinedBytes (bytes :: rest) = bytes ++ rest.flatMap (utf8 "," ++ ·) := by
  induction rest generalizing bytes with
  | nil => simp [joinedBytes]
  | cons next rest induction =>
    rw [joinedBytes, induction, flatMap_cons, append_assoc, append_assoc]
    exact cons_ne_nil next rest

theorem utf8_joined (texts : List String) : utf8 (joined texts) = joinedBytes (texts.map utf8) := by
  fun_induction joined texts with
  | case1 => rfl
  | case2 text => rfl
  | case3 text texts nonempty induction =>
    rw [utf8_append, utf8_append, induction]
    cases texts with
    | nil => exact absurd rfl nonempty
    | cons => rfl

theorem canonicalJsonBytes_arr (items : List JsonValue) :
    canonicalJsonBytes floatText (.arr items) =
      utf8 "[" ++ joinedBytes (items.map (canonicalJsonBytes floatText)) ++ utf8 "]" := by
  rw [canonicalJsonBytes, dumps, dumpsItems_eq_map, utf8_append, utf8_append, utf8_joined,
    map_map]
  rfl

theorem canonicalJsonBytes_single (item : JsonValue) : canonicalJsonBytes floatText (.arr [item]) =
      utf8 "[" ++ canonicalJsonBytes floatText item ++ utf8 "]" :=
  canonicalJsonBytes_arr floatText [item]

end Linktools.Core
