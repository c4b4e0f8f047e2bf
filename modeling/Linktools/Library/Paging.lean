import Mathlib.Data.List.Sort

namespace Linktools.Library

variable {κ ε α β : Type}

/-- What is seen from a cursor on when the cursor of every page is followed to the end. -/
inductive Visits (fetch : Option κ → Except ε (List β × Option κ)) : Option κ → List β → Prop
  | last {cursor : Option κ} {items : List β} (fetched : fetch cursor = .ok (items, none)) :
      Visits fetch cursor items
  | more {cursor : Option κ} {items later : List β} {next : κ}
      (fetched : fetch cursor = .ok (items, some next)) (rest : Visits fetch (some next) later) :
      Visits fetch cursor (items ++ later)

variable {key : α → κ}

/-- The cursor behind some rows, and the one that a page of at most `limit` rows gives. -/
def cursorAfter (key : α → κ) (rows : List α) : Option κ := rows.getLast?.map key

def nextCursor (key : α → κ) (limit : Nat) (rows : List α) : Option κ :=
  if limit < rows.length then cursorAfter key (rows.take limit) else none

theorem cursorAfter_append (some : after ≠ []) :
    cursorAfter key (before ++ after) = cursorAfter key after := by
  rw [cursorAfter, List.getLast?_append_of_ne_nil before some, ← cursorAfter]

/-- Where every page behind a row holds the next rows, all rows are visited in order. -/
theorem exists_visits {fetch : Option κ → Except ε (List β × Option κ)} {shows : α → β → Prop}
    (positive : 0 < limit) (fetches : ∀ before rest, listing = before ++ rest → ∃ items,
      fetch (cursorAfter key before) = .ok (items, nextCursor key limit rest) ∧
        List.Forall₂ shows (rest.take limit) items) :
    ∃ items, Visits fetch none items ∧ List.Forall₂ shows listing items := by
  have from_here : ∀ count before rest, rest.length = count → listing = before ++ rest →
      ∃ items, Visits fetch (cursorAfter key before) items ∧ List.Forall₂ shows rest items := by
    intro count
    induction count using Nat.strongRecOn with
    | _ count ih =>
      intro before rest length split
      obtain ⟨items, fetched, shown⟩ := fetches before rest split
      unfold nextCursor at fetched
      by_cases more : limit < rest.length
      case pos =>
        rw [if_pos more] at fetched
        have some : rest.take limit ≠ [] := by
          intro none
          have short := congrArg List.length none
          rw [List.length_take, List.length_nil] at short
          omega
        obtain ⟨later, visits, laterShown⟩ := ih (rest.drop limit).length
          (by rw [List.length_drop]; omega) (before ++ rest.take limit) (rest.drop limit) rfl
          (by rw [List.append_assoc, List.take_append_drop]; exact split)
        rw [cursorAfter_append some] at visits
        have whole : List.Forall₂ shows (rest.take limit ++ rest.drop limit) (items ++ later) :=
          List.rel_append shown laterShown
        rw [List.take_append_drop] at whole
        cases cursor : cursorAfter key (rest.take limit) with
        | none =>
          rw [cursorAfter, Option.map_eq_none_iff, List.getLast?_eq_none_iff] at cursor
          exact absurd cursor some
        | some next =>
          rw [cursor] at fetched visits
          exact ⟨items ++ later, .more fetched visits, whole⟩
      case neg =>
        rw [if_neg more] at fetched
        rw [List.take_of_length_le (Nat.le_of_not_lt more)] at shown
        exact ⟨items, .last fetched, shown⟩
  exact from_here listing.length [] listing rfl rfl

/-- The rows behind a cursor are those that come later in a strictly ordered listing. -/
theorem filter_after [LinearOrder κ] {before rest : List α}
    (ordered : (before ++ rest).Pairwise fun left right => key left < key right) :
    (before ++ rest).filter (fun row => ∀ cursor ∈ cursorAfter key before, cursor < key row) =
      rest := by
  rw [List.pairwise_append] at ordered
  obtain ⟨orderedBefore, _, across⟩ := ordered
  rw [List.filter_append]
  have none : before.filter (fun row => ∀ cursor ∈ cursorAfter key before, cursor < key row) =
      [] := by
    rw [List.filter_eq_nil_iff]
    intro row member
    rw [decide_eq_true_eq]
    intro later
    have nonempty := List.ne_nil_of_mem member
    have cursor : cursorAfter key before = some (key (before.getLast nonempty)) := by
      rw [cursorAfter, List.getLast?_eq_some_getLast nonempty, Option.map_some]
    have less := later _ cursor
    obtain ⟨init, split⟩ : ∃ init, before = init ++ [before.getLast nonempty] :=
      ⟨before.dropLast, (List.dropLast_append_getLast nonempty).symm⟩
    rw [split, List.mem_append, List.mem_singleton] at member
    cases member with
    | inl earlier =>
      rw [split, List.pairwise_append] at orderedBefore
      have before := orderedBefore.2.2 row earlier _ (List.mem_singleton_self _)
      exact absurd less (not_lt_of_gt before)
    | inr same =>
      rw [← same] at less
      exact absurd less (lt_irrefl _)
  have all : rest.filter (fun row => ∀ cursor ∈ cursorAfter key before, cursor < key row) =
      rest := by
    rw [List.filter_eq_self]
    intro row member
    rw [decide_eq_true_eq]
    intro cursor behind
    rw [cursorAfter, Option.mem_def, Option.map_eq_some_iff] at behind
    obtain ⟨last, found, same⟩ := behind
    rw [← same]
    exact across last (List.mem_of_getLast? found) row member
  rw [none, all, List.nil_append]

/-- The rows from a number on, among rows that are numbered without a gap. -/
theorem filter_consecutive {rows : List α}
    (numbered : rows.map number = List.range' first rows.length) :
    rows.filter (fun row => start ≤ number row) = rows.drop (start - first) := by
  induction rows generalizing first with
  | nil => rw [List.filter_nil, List.drop_nil]
  | cons row rest ih =>
    have numbers : ∀ other ∈ row :: rest, first ≤ number other := by
      intro other member
      have listed := List.mem_map_of_mem (f := number) member
      rw [numbered, List.mem_range'_1] at listed
      exact listed.1
    rw [List.map_cons, List.length_cons, List.range'_succ, List.cons.injEq] at numbered
    by_cases reached : start ≤ first
    case pos =>
      rw [Nat.sub_eq_zero_of_le reached, List.drop_zero, List.filter_eq_self]
      exact fun other member => decide_eq_true (reached.trans (numbers other member))
    case neg =>
      have skipped : start - first = start - (first + 1) + 1 := by omega
      rw [List.filter_cons_of_neg (by simpa [numbered.1] using reached), ih numbered.2, skipped,
        List.drop_succ_cons]

/-- The pages that the states of a reader's calls give, and the cursor of the last one. -/
inductive Walk {σ : Type} (fetch : σ → Option κ → Except ε (List β × Option κ))
    (follows : σ → σ → Prop) : List σ → Option κ → List (List β) → Option κ → Prop
  | stop {state : σ} {cursor next : Option κ} {items : List β}
      (fetched : fetch state cursor = .ok (items, next)) :
      Walk fetch follows [state] cursor [items] next
  | turn {state after : σ} {states : List σ} {cursor : Option κ} {next : κ} {items : List β}
      {pages : List (List β)} {final : Option κ}
      (fetched : fetch state cursor = .ok (items, some next)) (turned : follows state after)
      (rest : Walk fetch follows (after :: states) (some next) pages final) :
      Walk fetch follows (state :: after :: states) cursor (items :: pages) final

/-- What a walk over a listing has shown: the front of the listing, in full pages except for the
last one, and nothing is left when the last page has no cursor. -/
structure WalkShows {σ : Type} (shows : α → β → Prop) (leaves : σ → κ → List α → Prop)
    (limit : Nat) (listing : List α) (states : List σ) (pages : List (List β))
    (final : Option κ) : Prop where
  front : ∃ seen left, listing = seen ++ left ∧ List.Forall₂ shows seen pages.flatten ∧
    (final = none → left = []) ∧
    ∀ token, final = some token → left ≠ [] ∧ ∃ state ∈ states.getLast?, leaves state token left
  full : ∀ page ∈ pages.dropLast, page.length = limit
  bounded : pages.dropLast.length * limit ≤ listing.length

/-- Where every page shows the next rows of what its cursor denotes, and the rows behind it are
those that its own cursor denotes from then on, a walk shows the listing. -/
theorem Walk.shows {σ : Type} {fetch : σ → Option κ → Except ε (List β × Option κ)}
    {follows : σ → σ → Prop} {denotes : σ → Option κ → List α → Prop}
    {leaves : σ → κ → List α → Prop} {shows : α → β → Prop} {limit : Nat}
    (fetches : ∀ state cursor listing items next, denotes state cursor listing →
      fetch state cursor = .ok (items, next) → List.Forall₂ shows (listing.take limit) items ∧
        (next = none ∧ listing.length ≤ limit ∨ ∃ token, next = some token ∧
          limit < listing.length ∧ leaves state token (listing.drop limit)))
    (turns : ∀ state token listing after, leaves state token listing → follows state after →
      denotes after (some token) listing)
    {state : σ} {states : List σ} (start : denotes state cursor listing)
    (walk : Walk fetch follows (state :: states) cursor pages final) :
    WalkShows shows leaves limit listing (state :: states) pages final := by
  generalize calls : state :: states = calls at walk
  induction walk generalizing state states listing with
  | @stop state' cursor next items fetched =>
    cases calls
    obtain ⟨shown, left⟩ := fetches _ _ _ _ _ start fetched
    refine ⟨⟨listing.take limit, listing.drop limit, (List.take_append_drop _ _).symm, ?_, ?_, ?_⟩,
      nofun, ?_⟩
    · rw [List.flatten_singleton]
      exact shown
    · intro last
      cases left with
      | inl done => exact List.drop_eq_nil_of_le done.2
      | inr more =>
        obtain ⟨token, cursor, _⟩ := more
        rw [last] at cursor
        cases cursor
    · intro token more
      cases left with
      | inl done =>
        rw [done.1] at more
        cases more
      | inr left =>
        obtain ⟨other, cursor, longer, leaves⟩ := left
        cases cursor.symm.trans more
        refine ⟨?_, state', rfl, leaves⟩
        rw [Ne, List.drop_eq_nil_iff]
        exact Nat.not_le_of_gt longer
    · rw [List.dropLast_singleton, List.length_nil, Nat.zero_mul]
      exact Nat.zero_le _
  | @turn state' after states' cursor next items pages final fetched turned rest ih =>
    cases calls
    obtain ⟨shown, left⟩ := fetches _ _ _ _ _ start fetched
    cases left with
    | inl done => cases done.1
    | inr more =>
      obtain ⟨token, same, longer, leaves⟩ := more
      cases same
      have later := ih (turns _ _ _ _ leaves turned) rfl
      obtain ⟨⟨seen, behind, split, pagesShown, last, goesOn⟩, full, bounded⟩ := later
      have some : pages ≠ [] := by
        cases rest with
        | stop | turn => exact List.cons_ne_nil _ _
      have size : items.length = limit := by
        rw [← shown.length_eq, List.length_take, min_eq_left (le_of_lt longer)]
      refine ⟨⟨listing.take limit ++ seen, behind, ?_, ?_, last, ?_⟩, ?_, ?_⟩
      · rw [List.append_assoc, ← split, List.take_append_drop]
      · rw [List.flatten_cons]
        exact List.rel_append shown pagesShown
      · intro token more
        obtain ⟨nonempty, state, member, leaves⟩ := goesOn token more
        exact ⟨nonempty, state, by rwa [List.getLast?_cons_cons], leaves⟩
      · rw [List.dropLast_cons_of_ne_nil some]
        intro page member
        cases List.mem_cons.mp member with
        | inl first => rw [first, size]
        | inr later => exact full page later
      · rw [List.dropLast_cons_of_ne_nil some, List.length_cons, Nat.succ_mul]
        rw [List.length_drop] at bounded
        omega

end Linktools.Library
