import Mathlib.Logic.Relation
import Mathlib.Tactic.Common

namespace Linktools.Library

/-! Computations that change a state and may raise.  What was changed before an error
stays changed; to undo it is left to the caller. -/

universe u

abbrev Action (σ ε : Type u) := ExceptT ε (StateM σ)

namespace Action

variable {σ ε α β : Type u}

/-- The outcome of a computation from a state, and the state that it leaves. -/
def runOn (action : Action σ ε α) (state : σ) : Except ε α × σ :=
  (ExceptT.run action) state

variable {action : Action σ ε α} {next : α → Action σ ε β} {state : σ}

variable {value : α}

@[simp] theorem runOn_pure : runOn (pure value : Action σ ε α) state = (.ok value, state) := rfl

variable {error : ε}

@[simp] theorem runOn_modify :
    runOn (modify change : Action σ ε PUnit) state = (.ok ⟨⟩, change state) := rfl

variable {outcome : Except ε α}

theorem runOn_bind : runOn (action >>= next) state =
      match runOn action state with
      | (.ok value, middle) => runOn (next value) middle
      | (.error error, middle) => (.error error, middle) := by
  change (ExceptT.bindCont (fun value => next value) (runOn action state).1)
    (runOn action state).2 = _
  rcases runOn action state with ⟨_ | _, _⟩ <;> rfl

variable {middle : σ}

theorem runOn_bind_of_ok (first : runOn action state = (.ok value, middle)) :
    runOn (action >>= next) state = runOn (next value) middle := by
  rw [runOn_bind, first]

theorem runOn_bind_of_error (first : runOn action state = (.error error, middle)) :
    runOn (action >>= next) state = (.error error, middle) := by
  rw [runOn_bind, first]

theorem runOn_ok_bind :
    runOn ((liftM (Except.ok value : Except ε α) : Action σ ε α) >>= next) state =
      runOn (next value) state := rfl

theorem runOn_error_bind :
    runOn ((liftM (Except.error error : Except ε α) : Action σ ε α) >>= next) state =
      (.error error, state) := rfl

variable {read : σ → Action σ ε β}

theorem runOn_bind_get : runOn (get >>= read) state = runOn (read state) state := rfl

variable {items : List α}

theorem runOn_forM_modify {change : α → σ → σ} :
    runOn (items.forM fun item => (modify (change item) : Action σ ε PUnit)) state =
      (.ok ⟨⟩, items.foldl (fun state item => change item state) state) := by
  induction items generalizing state with
  | nil => rfl
  | cons head tail ih =>
    change runOn ((modify (change head) : Action σ ε PUnit) >>= fun _ =>
      tail.forM fun item => (modify (change item) : Action σ ε PUnit)) state = _
    rw [runOn_bind_of_ok runOn_modify, ih, List.foldl_cons]

variable {transform : α → β}

theorem runOn_map : runOn (transform <$> action) state =
      (transform <$> (runOn action state).1, (runOn action state).2) := by
  change runOn (action >>= fun value => Pure.pure (transform value)) state = _
  rw [runOn_bind]
  rcases runOn action state with ⟨_ | _, _⟩ <;> rfl

variable {handler : ε → Action σ ε α}

theorem runOn_tryCatch : runOn (tryCatch action handler) state =
      match runOn action state with
      | (.ok value, middle) => (.ok value, middle)
      | (.error error, middle) => runOn (handler error) middle := by
  change (match (runOn action state).1 with
    | .ok value => _
    | .error error => _ : StateM σ (Except ε α)) (runOn action state).2 = _
  rcases runOn action state with ⟨_ | _, _⟩ <;> rfl

/-- The state that a computation leaves is reached by some of the allowed changes,
whether the computation returns or raises. -/
def Moves (change : σ → σ → Prop) (action : Action σ ε α) (state : σ) : Prop :=
  Relation.ReflTransGen change state (runOn action state).2

variable {change : σ → σ → Prop}

theorem Moves.pure : Moves change (Pure.pure value : Action σ ε α) state := .refl

theorem Moves.throw : Moves change (MonadExcept.throw error : Action σ ε α) state := .refl

theorem Moves.lift : Moves change (liftM outcome : Action σ ε α) state := .refl

theorem Moves.update {transform : σ → σ} (allowed : change state (transform state)) :
    Moves change (modify transform : Action σ ε PUnit) state := .single allowed

theorem Moves.bind (first : Moves change action state)
    (rest : ∀ value middle, runOn action state = (.ok value, middle) →
      Moves change (next value) middle) : Moves change (action >>= next) state := by
  rw [Moves, runOn_bind]
  rw [Moves] at first
  cases ran : runOn action state with
  | mk outcome middle =>
    rw [ran] at first
    cases outcome with
    | error error => exact first
    | ok value => exact first.trans (rest value middle ran)

theorem Moves.map (first : Moves change action state) :
    Moves change (transform <$> action) state := by
  rw [Moves, runOn_map]
  exact first

theorem Moves.bind_get (rest : Moves change (read state) state) :
    Moves change (get >>= read) state := rest

theorem Moves.bind_lift (rest : ∀ value, outcome = .ok value → Moves change (next value) state) :
    Moves change ((liftM outcome : Action σ ε α) >>= next) state :=
  Moves.lift.bind fun value middle ran => by
    cases ran
    exact rest value rfl

theorem Moves.forM {body : α → Action σ ε PUnit}
    (each : ∀ item ∈ items, ∀ state, Moves change (body item) state) :
    Moves change (items.forM body) state := by
  induction items generalizing state with
  | nil => exact .pure
  | cons head tail ih =>
    refine Moves.bind (each head List.mem_cons_self state) ?_
    intro _ middle _
    exact ih fun item member => each item (List.mem_cons_of_mem _ member)

theorem Moves.tryCatch (first : Moves change action state)
    (rest : ∀ error middle, runOn action state = (.error error, middle) →
      Moves change (handler error) middle) :
    Moves change (MonadExcept.tryCatch action handler) state := by
  rw [Moves, runOn_tryCatch]
  rw [Moves] at first
  cases outcome : runOn action state with
  | mk answer middle =>
    rw [outcome] at first
    cases answer with
    | ok value => exact first
    | error error => exact first.trans (rest error middle outcome)

theorem Moves.keeps (invariant : σ → Prop) (moves : Moves change action state)
    (kept : ∀ before after, change before after → invariant before → invariant after)
    (holds : invariant state) : invariant (runOn action state).2 := by
  rw [Moves] at moves
  generalize (runOn action state).2 = last at moves ⊢
  induction moves with
  | refl => exact holds
  | tail _ step ih => exact kept _ _ step ih

/-- A computation leaves a state with some property, whether it returns or raises; a result
that it returns meets the postcondition; and under a condition it does return. -/
structure Ensures (returns : Prop) (kept : σ → Prop) (action : Action σ ε α) (state : σ)
    (post : α → σ → Prop) : Prop where
  kept : kept (runOn action state).2
  post : ∀ value, (runOn action state).1 = .ok value → post value (runOn action state).2
  returns : returns → ∃ value, (runOn action state).1 = .ok value

section Ensures

variable {returns : Prop} {kept wider : σ → Prop} {post : α → σ → Prop}

theorem Ensures.pure (holds : kept state) (result : post value state) :
    Ensures returns kept (Pure.pure value : Action σ ε α) state post where
  kept := holds
  post := by
    intro found same
    cases same
    exact result
  returns := fun _ => ⟨value, rfl⟩

theorem Ensures.update {transform : σ → σ} {post : PUnit → σ → Prop}
    (holds : kept (transform state)) (result : post ⟨⟩ (transform state)) :
    Ensures returns kept (modify transform : Action σ ε PUnit) state post where
  kept := holds
  post := fun _ _ => result
  returns := fun _ => ⟨⟨⟩, rfl⟩

theorem Ensures.lift (holds : kept state) (result : ∀ value, outcome = .ok value → post value state)
    (succeeds : returns → ∃ value, outcome = .ok value) :
    Ensures returns kept (liftM outcome : Action σ ε α) state post where
  kept := holds
  post := result
  returns := succeeds

theorem Ensures.lift_ok (succeeds : outcome = .ok value) (holds : kept state) :
    Ensures returns kept (liftM outcome : Action σ ε α) state fun found last =>
      found = value ∧ last = state where
  kept := holds
  post := by
    intro found same
    change outcome = .ok found at same
    rw [succeeds] at same
    cases same
    exact ⟨rfl, rfl⟩
  returns := fun _ => ⟨value, succeeds⟩

theorem Ensures.bind {middlePost : α → σ → Prop} {post : β → σ → Prop}
    (first : Ensures returns kept action state middlePost)
    (rest : ∀ value middle, kept middle → middlePost value middle →
      Ensures returns kept (next value) middle post) :
    Ensures returns kept (action >>= next) state post := by
  cases ran : runOn action state with
  | mk outcome middle =>
    have holds := first.kept
    have result := first.post
    have succeeds := first.returns
    rw [ran] at holds result succeeds
    cases outcome with
    | error error =>
      have stops : runOn (action >>= next) state = _ := runOn_bind_of_error ran
      constructor
      · rw [stops]
        exact holds
      · intro value impossible
        rw [stops] at impossible
        cases impossible
      · intro condition
        obtain ⟨value, impossible⟩ := succeeds condition
        cases impossible
    | ok value =>
      have later := rest value middle holds (result value rfl)
      have continues : runOn (action >>= next) state = _ := runOn_bind_of_ok ran
      constructor
      · rw [continues]
        exact later.kept
      · rw [continues]
        exact later.post
      · rw [continues]
        exact later.returns

theorem Ensures.bind_get {post : β → σ → Prop}
    (rest : Ensures returns kept (read state) state post) :
    Ensures returns kept (get >>= read) state post :=
  ⟨rest.kept, rest.post, rest.returns⟩

theorem Ensures.mono {weaker : α → σ → Prop} (ensures : Ensures returns kept action state post)
    (widens : ∀ last, kept last → wider last)
    (follows : ∀ value last, kept last → post value last → weaker value last) :
    Ensures returns wider action state weaker where
  kept := widens _ ensures.kept
  post := fun value same => follows value _ ensures.kept (ensures.post value same)
  returns := ensures.returns

theorem Ensures.weaken {sooner : Prop} (ensures : Ensures returns kept action state post)
    (suffices_ : sooner → returns) : Ensures sooner kept action state post where
  kept := ensures.kept
  post := ensures.post
  returns := fun condition => ensures.returns (suffices_ condition)

theorem Ensures.map {post : β → σ → Prop}
    (ensures : Ensures returns kept action state fun value => post (transform value)) :
    Ensures returns kept (transform <$> action) state post := by
  have ran : runOn (transform <$> action) state = _ := runOn_map
  constructor
  · rw [ran]
    exact ensures.kept
  · intro value same
    rw [ran] at same ⊢
    cases outcome : (runOn action state).1 with
    | error error =>
      rw [outcome] at same
      cases same
    | ok found =>
      rw [outcome] at same
      cases same
      exact ensures.post found outcome
  · intro condition
    obtain ⟨value, same⟩ := ensures.returns condition
    rw [ran, same]
    exact ⟨transform value, rfl⟩

theorem Ensures.forM {items : List α} {body : α → Action σ ε PUnit} (holds : kept state)
    (each : ∀ item ∈ items, ∀ state, kept state →
      Ensures returns kept (body item) state fun _ _ => True) :
    Ensures returns kept (items.forM body) state fun _ last => kept last := by
  induction items generalizing state with
  | nil => exact .pure holds holds
  | cons head tail ih =>
    refine Ensures.bind (each head List.mem_cons_self state holds) ?_
    intro _ middle kept _
    exact ih kept fun item member => each item (List.mem_cons_of_mem _ member)

end Ensures

end Action

end Linktools.Library
