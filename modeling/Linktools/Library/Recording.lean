import Linktools.Library.Checked
import Linktools.Library.Machine

namespace Linktools.Library

/-! Stores that remember their past, so that what a caller has read at some time is a fact
about the run. -/

structure Recording (Store : Type*) where
  store : Store
  past : List Store := []

namespace Recording

variable {Store Call Error Answer : Type*} {recording : Recording Store} {earlier after : Store}
  {related : Store → Store → Prop}

def advance (recording : Recording Store) (after : Store) : Recording Store :=
  ⟨after, recording.store :: recording.past⟩

def seen (recording : Recording Store) : List Store :=
  recording.store :: recording.past

def Since (related : Store → Store → Prop) (recording : Recording Store) : Prop :=
  ∀ earlier ∈ recording.past, related earlier recording.store

theorem Since.of_seen (since : recording.Since related) (refl : ∀ store, related store store)
    (member : earlier ∈ recording.seen) : related earlier recording.store := by
  cases List.mem_cons.mp member with
  | inl present => exact present ▸ refl recording.store
  | inr past => exact since earlier past

theorem Since.advance (trans : ∀ first second third, related first second → related second third →
      related first third)
    (since : recording.Since related) (step : related recording.store after) :
    (recording.advance after).Since related := by
  intro earlier member
  cases List.mem_cons.mp member with
  | inl present => exact present ▸ step
  | inr past => exact trans _ _ _ (since earlier past) step

def respond (run : Store → Call → Except Error (Answer × Store)) (recording : Recording Store)
    (call : Call) : Recording Store :=
  match run recording.store call with
  | .ok (_, after) => recording.advance after
  | .error _ => recording

variable {run : Store → Call → Except Error (Answer × Store)} {call : Call}

theorem respond_cases (run : Store → Call → Except Error (Answer × Store))
    (recording : Recording Store) (call : Call) :
    (∃ raised, run recording.store call = .error raised ∧ recording.respond run call = recording) ∨
    ∃ answer after, run recording.store call = .ok (answer, after) ∧
      recording.respond run call = recording.advance after := by
  unfold respond
  cases run recording.store call with
  | error raised => exact .inl ⟨raised, rfl, rfl⟩
  | ok result => exact .inr ⟨result.1, result.2, rfl, rfl⟩

theorem respond_of_ok (done : run recording.store call = .ok (answer, after)) :
    recording.respond run call = recording.advance after := by
  simp only [respond, done]

theorem respond_of_error (failed : run recording.store call = .error raised) :
    recording.respond run call = recording := by
  simp only [respond, failed]

/-- The system of calls that are promised in the state before the step. -/
def machine (run : Store → Call → Except Error (Answer × Store)) (empty : Store)
    (promised : Recording Store → Call → Prop) : Machine (Recording Store) Call where
  initial recording := recording = ⟨empty, []⟩
  step first call last := promised first call ∧ last = first.respond run call

variable {empty : Store} {promised : Recording Store → Call → Prop}

theorem since_of_reachable {sound : Store → Prop} (initially : sound empty)
    (trans : ∀ first second third, related first second → related second third →
      related first third)
    (advances : ∀ recording : Recording Store, recording.Since related → sound recording.store →
      ∀ call, promised recording call → ∀ answer after,
        run recording.store call = .ok (answer, after) →
        related recording.store after ∧ sound after)
    (reachable : (machine run empty promised).Reachable recording) :
    recording.Since related ∧ sound recording.store := by
  apply reachable.invariant
  · rintro _ rfl
    exact ⟨nofun, initially⟩
  · intro first call last _ recorded step
    obtain ⟨allowed, rfl⟩ := step
    cases respond_cases run first call with
    | inl raises =>
      obtain ⟨_, _, same⟩ := raises
      rw [same]
      exact recorded
    | inr commits =>
      obtain ⟨answer, after, done, same⟩ := commits
      obtain ⟨further, sound⟩ := advances first recorded.1 recorded.2 call allowed answer after done
      rw [same]
      exact ⟨recorded.1.advance trans further, sound⟩

end Recording

end Linktools.Library
