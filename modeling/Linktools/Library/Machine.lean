import Mathlib.Tactic.Common

namespace Linktools.Library

open List

/-! Labelled transition systems, their finite runs, and the two rules by which
facts about one step become facts about whole runs. -/

structure Machine (State Label : Type*) where
  initial : State → Prop
  step : State → Label → State → Prop

namespace Machine

variable {State Label : Type*} {machine : Machine State Label}

inductive Run (machine : Machine State Label) : State → List Label → State → Prop
  | nil (state : State) : Run machine state [] state
  | cons {first middle last : State} {label : Label} {labels : List Label}
      (step : machine.step first label middle)
      (rest : Run machine middle labels last) : Run machine first (label :: labels) last

def Reachable (machine : Machine State Label) (state : State) : Prop :=
  ∃ start labels, machine.initial start ∧ Run machine start labels state

variable {first last : State} {label : Label}

theorem Run.single (step : machine.step first label last) : Run machine first [label] last :=
  .cons step (.nil last)

variable {labels left right : List Label}

theorem Run.append {first middle last : State} (leftRun : Run machine first left middle)
    (rightRun : Run machine middle right last) : Run machine first (left ++ right) last := by
  induction leftRun with
  | nil => exact rightRun
  | cons step _ ih => exact .cons step (ih rightRun)

theorem Run.of_append (run : Run machine first (left ++ right) last) :
    ∃ middle, Run machine first left middle ∧ Run machine middle right last := by
  induction left generalizing first with
  | nil => exact ⟨first, .nil first, run⟩
  | cons label labels ih =>
    cases run with
    | cons step rest =>
      obtain ⟨middle, leftRun, rightRun⟩ := ih rest
      exact ⟨middle, .cons step leftRun, rightRun⟩

theorem Run.of_cons (run : Run machine first (label :: labels) last) :
    ∃ middle, machine.step first label middle ∧ Run machine middle labels last := by
  cases run with
  | cons step rest => exact ⟨_, step, rest⟩

theorem Reachable.of_initial (start : machine.initial state) : machine.Reachable state :=
  ⟨state, [], start, .nil state⟩

theorem Reachable.run (reachable : machine.Reachable first) (run : Run machine first labels last) :
    machine.Reachable last := by
  obtain ⟨start, before, initial, reached⟩ := reachable
  exact ⟨start, before ++ labels, initial, reached.append run⟩

theorem Reachable.step
    (reachable : machine.Reachable first) (step : machine.step first label last) :
    machine.Reachable last :=
  reachable.run (.single step)

theorem Run.preserves {invariant : State → Prop}
    (preserved : ∀ first label last, machine.Reachable first →
      invariant first → machine.step first label last → invariant last) {first last : State}
    {labels : List Label} (reachable : machine.Reachable first) (holds : invariant first)
    (run : Run machine first labels last) : invariant last := by
  induction run with
  | nil => exact holds
  | cons step _ ih => exact ih (reachable.step step) (preserved _ _ _ reachable holds step)

theorem Reachable.invariant {invariant : State → Prop}
    (initially : ∀ state, machine.initial state → invariant state)
    (preserved : ∀ first label last, machine.Reachable first →
      invariant first → machine.step first label last → invariant last)
    {state : State} (reachable : machine.Reachable state) : invariant state := by
  obtain ⟨start, labels, initial, run⟩ := reachable
  exact run.preserves preserved (.of_initial initial) (initially start initial)

theorem Run.relates {relation : State → State → Prop} (refl : ∀ state, relation state state)
    (trans : ∀ first middle last,
      relation first middle → relation middle last → relation first last)
    (stepwise : ∀ first label last, machine.Reachable first →
      machine.step first label last → relation first last)
    {first last : State} {labels : List Label}
    (reachable : machine.Reachable first) (run : Run machine first labels last) :
    relation first last := by
  induction run with
  | nil state => exact refl state
  | cons step _ ih => exact trans _ _ _ (stepwise _ _ _ reachable step) (ih (reachable.step step))

/-- The `unless` rule: what every step keeps or releases holds at the end of a run,
unless some state of the run has released it. -/
theorem Run.unless {holds released : State → Prop}
    (kept : ∀ first label last, machine.Reachable first → holds first →
      machine.step first label last → holds last ∨ released last)
    (reachable : machine.Reachable first) (start : holds first)
    (run : Run machine first labels last) :
    holds last ∨ ∃ earlier later middle, labels = earlier ++ later ∧
      Run machine first earlier middle ∧ Run machine middle later last ∧ released middle := by
  induction run with
  | nil => exact .inl start
  | @cons first middle last label labels step rest ih =>
    rcases kept _ _ _ reachable start step with stays | leaves
    · rcases ih (reachable.step step) stays with holds |
        ⟨earlier, later, state, split, toState, fromState, leaves⟩
      · exact .inl holds
      · exact .inr ⟨label :: earlier, later, state, by rw [split, cons_append],
          .cons step toState, fromState, leaves⟩
    · exact .inr ⟨[label], labels, middle, rfl, .single step, rest, leaves⟩

variable {closed holds : State → Prop}

theorem Run.exists_loss {holds : State → Prop} {first last : State} {labels : List Label}
    (run : Run machine first labels last) (start : holds first) (lost : ¬holds last) :
    ∃ earlier label later before after, labels = earlier ++ label :: later ∧
      Run machine first earlier before ∧ machine.step before label after ∧
      Run machine after later last ∧ holds before ∧ ¬holds after := by
  induction run with
  | nil => exact absurd start lost
  | @cons first middle last label labels step rest ih =>
    by_cases kept : holds middle
    case pos =>
      obtain ⟨earlier, loss, later, before, after, split, toState, breaks, fromState, held,
        broken⟩ :=
        ih kept lost
      exact ⟨label :: earlier, loss, later, before, after, by rw [split, cons_append],
        .cons step toState, breaks, fromState, held, broken⟩
    case neg => exact ⟨[], label, labels, first, middle, rfl, .nil first, step, rest, start, kept⟩

variable {fires : Label → Bool}

section

variable (stays : ∀ first label last, machine.step first label last → closed first → closed last)
include stays

section

variable (open_of_fires : ∀ first label last, machine.step first label last →
    fires label = true → ¬closed first)
include open_of_fires

theorem Run.countP_eq_zero (run : Run machine first labels last) (start : closed first) :
    labels.countP fires = 0 := by
  induction run with
  | nil => rfl
  | cons step _ ih =>
    have quiet := fun fired => open_of_fires _ _ _ step fired start
    rw [countP_cons_of_neg quiet]
    exact ih (stays _ _ _ step start)

theorem Run.countP_le_one
    (closes : ∀ first label last, machine.step first label last → fires label = true → closed last)
    (run : Run machine first labels last) : labels.countP fires ≤ 1 := by
  induction run with
  | nil => exact Nat.zero_le 1
  | @cons first middle last label labels step rest ih =>
    cases fired : fires label with
    | true =>
      have quiet := rest.countP_eq_zero stays open_of_fires (closes _ _ _ step fired)
      have count : (label :: labels).countP fires = 0 + 1 := by
        rw [countP_cons_of_pos fired, quiet]
      exact Nat.le_of_eq count
    | false =>
      rw [countP_cons_of_neg (Bool.eq_false_iff.mp fired)]
      exact ih

end

end

/-- The machine whose steps all meet a condition on the state before the step and
on the label. -/
def restrict (machine : Machine State Label) (allowed : State → Label → Prop) :
    Machine State Label where
  initial := machine.initial
  step first label last := machine.step first label last ∧ allowed first label

variable {allowed : State → Label → Prop}

theorem Run.of_restrict
    (run : Run (machine.restrict allowed) first labels last) : Run machine first labels last := by
  induction run with
  | nil state => exact .nil state
  | cons step _ ih => exact .cons step.1 ih

theorem Run.restrict_mono {wider : State → Label → Prop}
    (widens : ∀ state label, allowed state label → wider state label)
    (run : Run (machine.restrict allowed) first labels last) :
    Run (machine.restrict wider) first labels last := by
  induction run with
  | nil state => exact .nil state
  | cons step _ ih => exact .cons ⟨step.1, widens _ _ step.2⟩ ih

end Machine

open Machine

variable {State Label Owner : Type*} {machine : Machine State Label}

/-- Every step leaves in the slot whom it took, or the former owner if it did not free
it. -/
structure Slot (machine : Machine State Label) (Owner : Type*) where
  holder : State → Option Owner
  takes : Label → Owner → Prop
  frees : Label → Owner → Prop
  step_iff : ∀ {first label last}, machine.step first label last → ∀ owner,
    holder last = some owner ↔ takes label owner ∨ holder first = some owner ∧ ¬frees label owner

namespace Slot

variable {slot : Slot machine Owner} {first last : State} {label : Label} {labels : List Label}
  {owner : Owner}

def HeldSince (slot : Slot machine Owner) (labels : List Label) (owner : Owner) : Prop :=
  ∃ before label after, labels = before ++ label :: after ∧ slot.takes label owner ∧
    ∀ later ∈ after, ¬slot.frees later owner

theorem not_heldSince_nil : ¬slot.HeldSince [] owner := by
  rintro ⟨before, label, after, split, _⟩
  exact List.append_ne_nil_of_right_ne_nil before (List.cons_ne_nil label after) split.symm

theorem heldSince_cons : slot.HeldSince (label :: labels) owner ↔ slot.HeldSince labels owner ∨
        slot.takes label owner ∧ ∀ later ∈ labels, ¬slot.frees later owner := by
  constructor
  · rintro ⟨before, taking, after, split, takes, kept⟩
    cases before with
    | nil =>
      obtain ⟨rfl, rfl⟩ := List.cons.inj split
      exact .inr ⟨takes, kept⟩
    | cons earlier before =>
      obtain ⟨rfl, rfl⟩ := List.cons.inj split
      exact .inl ⟨before, taking, after, rfl, takes, kept⟩
  · rintro (⟨before, taking, after, rfl, takes, kept⟩ | ⟨takes, kept⟩)
    · exact ⟨label :: before, taking, after, rfl, takes, kept⟩
    · exact ⟨[], label, labels, rfl, takes, kept⟩

theorem holder_run (run : Run machine first labels last) : slot.holder last = some owner ↔
      slot.HeldSince labels owner ∨
        slot.holder first = some owner ∧ ∀ label ∈ labels, ¬slot.frees label owner := by
  induction run with
  | nil state => simp [not_heldSince_nil]
  | @cons first middle last label labels step rest ih =>
    rw [ih, slot.step_iff step, heldSince_cons, List.forall_mem_cons]
    tauto

theorem holder_run_of_empty (empty : slot.holder first = none)
    (run : Run machine first labels last) :
    slot.holder last = some owner ↔ slot.HeldSince labels owner := by
  rw [holder_run run, empty]
  simp

theorem heldSince_unique (empty : slot.holder first = none) (run : Run machine first labels last)
    (held : slot.HeldSince labels owner) (also : slot.HeldSince labels other) : owner = other :=
  Option.some.inj (((holder_run_of_empty empty run).mpr held).symm.trans
    ((holder_run_of_empty empty run).mpr also))

theorem holder_of_frees (apart : ∀ label owner, slot.takes label owner → ¬slot.frees label owner)
    (step : machine.step first label last) (frees : slot.frees label owner) :
    slot.holder last ≠ some owner := by
  intro holds
  rcases (slot.step_iff step owner).mp holds with takes | ⟨_, kept⟩
  · exact apart label owner takes frees
  · exact kept frees

end Slot

end Linktools.Library

namespace Linktools.Library

open List

variable {Label State : Type*} {holds weaker starts : Label → Prop} {history : List Label}
  {label : Label}

def Since (holds starts : Label → Prop) : List Label → Prop
  | [] => False
  | latest :: earlier => starts latest ∨ holds latest ∧ Since holds starts earlier

theorem Since.now (start : starts label) : Since holds starts (label :: history) := .inl start

theorem Since.extend (since : Since holds starts history) (still : holds label) :
    Since holds starts (label :: history) := .inr ⟨still, since⟩

theorem since_iff :
    Since holds starts history ↔ ∃ later start earlier, history = later ++ start :: earlier ∧
      starts start ∧ ∀ label ∈ later, holds label := by
  induction history with
  | nil => simp [Since]
  | cons latest past ih =>
    constructor
    · intro since
      cases since with
      | inl start => exact ⟨[], latest, past, rfl, start, nofun⟩
      | inr since =>
        obtain ⟨later, start, earlier, split, starts, all⟩ := ih.mp since.2
        refine ⟨latest :: later, start, earlier, by rw [split]; rfl, starts, ?_⟩
        intro label member
        cases mem_cons.mp member with
        | inl same => exact same ▸ since.1
        | inr inside => exact all label inside
    · intro split
      obtain ⟨later, start, earlier, split, starts, all⟩ := split
      cases later with
      | nil =>
        cases split
        exact .now starts
      | cons newest later =>
        obtain ⟨same, rest⟩ := List.cons.inj split
        apply Since.extend
        · exact ih.mpr ⟨later, start, earlier, rest, starts,
            fun label member => all label (mem_cons_of_mem _ member)⟩
        · exact same ▸ all newest mem_cons_self

section

variable (since : Since holds starts history)
include since

theorem Since.mono
    (weaken : ∀ label ∈ history, holds label → weaker label) : Since weaker starts history := by
  rw [since_iff] at since ⊢
  obtain ⟨later, start, earlier, split, starts, all⟩ := since
  refine ⟨later, start, earlier, split, starts, fun label member => ?_⟩
  apply weaken label _ (all label member)
  rw [split]
  exact mem_append_left _ member

theorem Since.starts_mono {other : Label → Prop}
    (weaken : ∀ label, starts label → other label) : Since holds other history := by
  induction history with
  | nil => exact since
  | cons latest past ih =>
    cases since with
    | inl start => exact .now (weaken latest start)
    | inr since => exact (ih since.2).extend since.1

theorem Since.exists_mem :
    ∃ label ∈ history, starts label := by
  obtain ⟨later, start, earlier, split, starts, _⟩ := since_iff.mp since
  refine ⟨start, ?_, starts⟩
  rw [split]
  exact mem_append_right _ mem_cons_self

end

theorem Machine.Run.history_invariant {invariant : List Label → State → Prop}
    (extended : ∀ history first label last, invariant history first →
      machine.step first label last → invariant (label :: history) last)
    (run : Machine.Run machine first labels last) (start : invariant history first) :
    invariant (labels.reverse ++ history) last := by
  induction run generalizing history with
  | nil => exact start
  | cons step _ ih =>
    rw [reverse_cons, append_assoc]
    exact ih (extended _ _ _ _ start step)

open Machine

structure Answered (Call Error : Type*) where
  call : Call
  raised : Option Error

variable {Call Error : Type*}

def callSystem (empty : State) (run : State → Call → Except Error State) :
    Machine State (Answered Call Error) where
  initial state := state = empty
  step first label last :=
    match run first label.call with
    | .ok after => label.raised = none ∧ last = after
    | .error raised => label.raised = some raised ∧ last = first

variable {empty first last : State} {run : State → Call → Except Error State}
  {label : Answered Call Error}

theorem callSystem_cases (step : (callSystem empty run).step first label last) :
    (label.raised = none ∧ run first label.call = .ok last) ∨
      ∃ raised, label.raised = some raised ∧ run first label.call = .error raised ∧
        last = first := by
  simp only [callSystem] at step
  split at step
  case h_1 after done =>
    obtain ⟨quiet, rfl⟩ := step
    exact .inl ⟨quiet, done⟩
  case h_2 raised failed => exact .inr ⟨raised, step.1, failed, step.2⟩

def playCalls (run : State → Call → Except Error State) (state : State) : List Call →
    State × List (Answered Call Error)
  | [] => (state, [])
  | call :: rest =>
    match run state call with
    | .ok after => ((playCalls run after rest).1, ⟨call, none⟩ :: (playCalls run after rest).2)
    | .error raised =>
      ((playCalls run state rest).1, ⟨call, some raised⟩ :: (playCalls run state rest).2)

theorem run_playCalls (state : State) (calls : List Call) :
    Run (callSystem empty run) state (playCalls run state calls).2
    (playCalls run state calls).1 := by
  induction calls generalizing state with
  | nil => exact .nil state
  | cons call rest ih =>
    rw [playCalls]
    split
    case h_1 after done =>
      refine .cons ?_ (ih after)
      simp only [callSystem, done, and_self]
    case h_2 raised failed =>
      refine .cons ?_ (ih state)
      simp only [callSystem, failed, and_self]

variable {state : State}

theorem step_playCall (returns : ((run state call).toOption.isSome) = true) :
    (callSystem empty run).step state ⟨call, none⟩ (playCalls run state [call]).1 := by
  rw [playCalls]
  split
  case h_1 after done =>
    simp only [callSystem, done]
    exact ⟨trivial, rfl⟩
  case h_2 raised failed =>
    rw [failed] at returns
    cases returns

variable {calls : List Call}

theorem run_restrict_playCalls {allowed : State → Answered Call Error → Prop}
    (sound : ∀ state, ∀ call ∈ calls, ∀ raised, allowed state ⟨call, raised⟩) :
    Run ((callSystem empty run).restrict allowed) state (playCalls run state calls).2
      (playCalls run state calls).1 := by
  induction calls generalizing state with
  | nil => exact .nil state
  | cons call rest ih =>
    have here := fun state => sound state call List.mem_cons_self
    have later : ∀ state, ∀ other ∈ rest, ∀ raised, allowed state ⟨other, raised⟩ :=
      fun state other member => sound state other (List.mem_cons_of_mem _ member)
    rw [playCalls]
    split
    case h_1 after done =>
      refine .cons ⟨?_, here state none⟩ (ih later)
      simp only [callSystem, done, and_self]
    case h_2 raised failed =>
      refine .cons ⟨?_, here state (some raised)⟩ (ih later)
      simp only [callSystem, failed, and_self]

theorem playCalls_quiet
    (quiet : ((playCalls run state calls).2.all fun label => label.raised.isNone) = true) :
    (playCalls run state calls).2 = calls.map fun call => ⟨call, none⟩ := by
  induction calls generalizing state with
  | nil => rfl
  | cons call rest ih =>
    rw [playCalls] at quiet ⊢
    split
    case h_1 after done =>
      rw [done] at quiet
      rw [List.map_cons, ← ih (Bool.and_eq_true_iff.mp quiet).2]
    case h_2 raised failed =>
      rw [failed] at quiet
      cases quiet

end Linktools.Library
