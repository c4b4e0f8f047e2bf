import Mathlib.Tactic.Common

namespace Linktools.Library

/-! Logs that are replayed entry by entry, each entry fitting the state before it. -/

variable {State Entry : Type*} {apply other : State → Entry → State}
  {fits : State → Entry → Prop} {state : State} {left right entries : List Entry}

def Fitting (apply : State → Entry → State) (fits : State → Entry → Prop) :
    State → List Entry → Prop
  | _, [] => True
  | state, entry :: rest =>
    fits state entry ∧ Fitting apply fits (apply state entry) rest

@[simp] theorem fitting_nil : Fitting apply fits state [] := trivial

theorem fitting_append : Fitting apply fits state (left ++ right) ↔ Fitting apply fits state left ∧
        Fitting apply fits (left.foldl apply state) right := by
  induction left generalizing state with
  | nil => simp
  | cons entry rest ih => simp only [List.cons_append, Fitting, ih, List.foldl_cons, and_assoc]

theorem Fitting.at (fitting : Fitting apply fits state (before ++ entry :: after)) :
    fits (before.foldl apply state) entry :=
  (fitting_append.mp fitting).2.1

theorem Fitting.congr (agree : ∀ state, ∀ entry ∈ entries, apply state entry = other state entry)
    (fitting : Fitting apply fits state entries) : Fitting other fits state entries := by
  induction entries generalizing state with
  | nil => trivial
  | cons entry rest ih =>
    obtain ⟨first, others⟩ := fitting
    refine ⟨first, ?_⟩
    rw [← agree state entry List.mem_cons_self]
    exact ih (fun state entry member => agree state entry (List.mem_cons_of_mem _ member)) others

end Linktools.Library
