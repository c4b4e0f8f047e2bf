import Mathlib.Data.List.AList

namespace Linktools.Library

/-! Finite tables, and overlays that collect the changes of a table without touching it. -/

universe u v

abbrev Table (κ : Type u) (ν : Type v) := AList fun _ : κ => ν

namespace Table

variable {κ : Type u} {ν : Type v} [DecidableEq κ] {table : Table κ ν} {key other : κ} {value : ν}

def items (table : Table κ ν) : List (κ × ν) :=
  table.entries.map fun entry => (entry.1, entry.2)

theorem mem_items : (key, value) ∈ items table ↔ table.lookup key = some value := by
  have mem := AList.mem_lookup_iff (a := key) (b := value) (s := table)
  rw [Option.mem_def] at mem
  rw [mem, items, List.mem_map]
  constructor
  · rintro ⟨⟨found, stored⟩, member, same⟩
    cases same
    exact member
  · exact fun member => ⟨⟨key, value⟩, member, rfl⟩

omit [DecidableEq κ] in
theorem nodup_items : ((items table).map Prod.fst).Nodup := by
  rw [items, List.map_map]
  exact table.nodupKeys

def eraseAll (table : Table κ ν) (keys : List κ) : Table κ ν :=
  keys.foldl (fun table key => table.erase key) table

theorem lookup_eraseAll (keys : List κ) :
    (eraseAll table keys).lookup key = if key ∈ keys then none else table.lookup key := by
  induction keys generalizing table with
  | nil => simp [eraseAll]
  | cons head tail ih =>
    rw [eraseAll, List.foldl_cons, ← eraseAll, ih]
    by_cases here : key = head
    case pos =>
      subst here
      simp [AList.lookup_erase]
    case neg => simp [here, AList.lookup_erase_ne here]

theorem lookup_union :
    (changes ∪ table).lookup key = (changes.lookup key).or (table.lookup key) := by
  by_cases changed : key ∈ changes
  case pos =>
    rw [AList.lookup_union_left changed]
    obtain ⟨value, found⟩ := Option.isSome_iff_exists.mp (AList.lookup_isSome.mpr changed)
    rw [found, Option.some_or]
  case neg =>
    rw [AList.lookup_union_right changed, AList.lookup_eq_none.mpr changed, Option.none_or]

/-- The table after some changes, of which `none` takes the entry away. -/
def patch (table : Table κ ν) (changes : Table κ (Option ν)) : Table κ ν :=
  changes.entries.foldl (fun table entry =>
    match entry.2 with
    | some value => table.insert entry.1 value
    | none => table.erase entry.1) table

theorem lookup_patch :
    (patch table changes).lookup key = (changes.lookup key).getD (table.lookup key) := by
  obtain ⟨entries, distinct⟩ := changes
  change (entries.foldl _ table).lookup key = (entries.dlookup key).getD (table.lookup key)
  induction entries generalizing table with
  | nil => rfl
  | cons head tail ih =>
    obtain ⟨changed, value⟩ := head
    rw [List.nodupKeys_cons] at distinct
    rw [List.foldl_cons, ih distinct.2]
    by_cases here : key = changed
    case pos =>
      subst here
      rw [List.dlookup_eq_none.mpr distinct.1, List.dlookup_cons_eq]
      cases value with
      | some value => exact AList.lookup_insert table
      | none => exact AList.lookup_erase key table
    case neg =>
      rw [List.dlookup_cons_ne tail ⟨changed, value⟩ here]
      cases value with
      | some value => rw [AList.lookup_insert_ne here]
      | none => rw [AList.lookup_erase_ne here]

def restrict (table : Table κ ν) : List κ → Table κ ν
  | [] => ∅
  | key :: keys =>
    match table.lookup key with
    | some value => (restrict table keys).insert key value
    | none => restrict table keys

theorem lookup_restrict :
    (restrict table keys).lookup key = if key ∈ keys then table.lookup key else none := by
  induction keys with
  | nil => rfl
  | cons head tail ih =>
    rw [restrict]
    by_cases here : key = head
    case pos =>
      subst here
      rw [if_pos List.mem_cons_self]
      cases found : table.lookup key with
      | some value => rw [AList.lookup_insert]
      | none =>
        dsimp only
        rw [ih, found, ite_self]
    case neg =>
      simp only [List.mem_cons, here, false_or]
      rw [← ih]
      cases table.lookup head with
      | some value => rw [AList.lookup_insert_ne here]
      | none => rfl

end Table

/-- Changes and deletions over a table; no key is changed and deleted. -/
structure Overlay (κ : Type u) (ν : Type v) [DecidableEq κ] where
  base : Table κ ν
  changes : Table κ ν := ∅
  deleted : List κ := []
  fresh : ∀ key ∈ deleted, key ∉ changes

namespace Overlay

variable {κ : Type u} {ν : Type v} [DecidableEq κ] (overlay : Overlay κ ν) {key other : κ}
  {value : ν}

def onto (base : Table κ ν) : Overlay κ ν where
  base := base
  fresh := by
    intro key member
    cases member

def lookup (key : κ) : Option ν :=
  match overlay.changes.lookup key with
  | some value => some value
  | none => if key ∈ overlay.deleted then none else overlay.base.lookup key

def set (key : κ) (value : ν) : Overlay κ ν where
  base := overlay.base
  changes := overlay.changes.insert key value
  deleted := overlay.deleted.filter fun gone => gone ≠ key
  fresh := by
    intro gone member
    rw [List.mem_filter, decide_eq_true_eq] at member
    rw [AList.mem_insert]
    exact not_or.mpr ⟨member.2, overlay.fresh gone member.1⟩

def erase (key : κ) : Overlay κ ν where
  base := overlay.base
  changes := overlay.changes.erase key
  deleted := key :: overlay.deleted
  fresh := by
    intro gone member
    rw [AList.mem_erase]
    rintro ⟨other, changed⟩
    cases List.mem_cons.mp member with
    | inl same => exact other same
    | inr earlier => exact overlay.fresh gone earlier changed

def eraseAll (keys : List κ) : Overlay κ ν :=
  keys.foldl erase overlay

def items : List (κ × ν) :=
  (Table.items (overlay.changes ∪ overlay.base)).filter fun entry => entry.1 ∉ overlay.deleted

def applyTo (target : Table κ ν) : Table κ ν :=
  overlay.changes ∪ Table.eraseAll target overlay.deleted

variable {overlay} {base : Table κ ν}

@[simp] theorem lookup_set : (overlay.set key value).lookup key = some value := by
  simp only [lookup, set, AList.lookup_insert]

theorem lookup_set_of_ne (different : other ≠ key) :
    (overlay.set key value).lookup other = overlay.lookup other := by
  simp only [lookup, set, AList.lookup_insert_ne different, List.mem_filter, decide_eq_true_eq,
    different, ne_eq, not_false_eq_true, and_true]

@[simp] theorem lookup_erase : (overlay.erase key).lookup key = none := by
  simp only [lookup, erase, AList.lookup_erase, List.mem_cons, true_or, if_true]

theorem lookup_erase_of_ne (different : other ≠ key) :
    (overlay.erase key).lookup other = overlay.lookup other := by
  simp only [lookup, erase, AList.lookup_erase_ne different, List.mem_cons, different, false_or]

theorem lookup_eraseAll (keys : List κ) :
    (overlay.eraseAll keys).lookup key = if key ∈ keys then none else overlay.lookup key := by
  induction keys generalizing overlay with
  | nil => simp [eraseAll]
  | cons head tail ih =>
    rw [eraseAll, List.foldl_cons, ← eraseAll, ih]
    by_cases here : key = head
    case pos =>
      subst here
      simp
    case neg => simp [here, lookup_erase_of_ne here]

@[simp] theorem base_eraseAll (keys : List κ) : (overlay.eraseAll keys).base = overlay.base := by
  induction keys generalizing overlay with
  | nil => rfl
  | cons head tail ih => exact ih.trans rfl

theorem mem_items : (key, value) ∈ overlay.items ↔ overlay.lookup key = some value := by
  rw [items, List.mem_filter, Table.mem_items, Table.lookup_union, decide_eq_true_eq, lookup]
  cases changed : overlay.changes.lookup key with
  | some current =>
    have kept : key ∉ overlay.deleted := by
      intro gone
      have absent := AList.lookup_eq_none.mpr (overlay.fresh key gone)
      cases absent.symm.trans changed
    simp [kept]
  | none =>
    by_cases gone : key ∈ overlay.deleted
    case pos => simp [gone]
    case neg => simp [gone]

theorem nodup_items : (overlay.items.map Prod.fst).Nodup :=
  Table.nodup_items.sublist (List.filter_sublist.map Prod.fst)

theorem lookup_applyTo : (overlay.applyTo overlay.base).lookup key = overlay.lookup key := by
  rw [applyTo, Table.lookup_union, Table.lookup_eraseAll, lookup]
  cases overlay.changes.lookup key with
  | some value => rfl
  | none => rfl

end Overlay

end Linktools.Library
