import MessageU.Library.EventRun

/-!
# Histories that a run writes

A concurrent system agrees with a sequential one when every operation can be placed at a moment of
the run so that the operations, done one after the other in the order of these moments, have the
results that they had. To place them is to write a history along the run: every event of the run
puts entries behind those that are there, or none, and a relation between the state and the history
holds all the time (`Along.exists_history`).

The history only grows, so that an operation that is in it at some moment stays in front of every
operation that is not in it yet.
-/

set_option autoImplicit false
set_option relaxedAutoImplicit false

namespace MessageU.Library

variable {State Event Entry : Type} {step : State → Event → State} {guard : State → Event → Prop}

/-- A relation that every event keeps when it puts the right entries behind the history holds at
every moment of the run, of a history that grows. -/
theorem Along.exists_history {R : State → List Entry → Prop}
    (hstep : ∀ state event history, guard state event → R state history →
      ∃ more, R (step state event) (history ++ more))
    {start : State} {first : List Entry} (hstart : R start first) {events : List Event}
    (hrun : Along step guard start events) :
    ∃ history : ℕ → List Entry, history 0 = first ∧
      (∀ time, history time <+: history (time + 1)) ∧
        ∀ time, R (runEvents step start (events.take time)) (history time) := by
  induction events generalizing start first with
  | nil => exact ⟨fun _ ↦ first, rfl, fun _ ↦ List.prefix_rfl, fun time ↦ by rwa [List.take_nil]⟩
  | cons event rest ih =>
    obtain ⟨more, hmore⟩ := hstep start event first hrun.1 hstart
    obtain ⟨later, hfirst, hgrows, hkept⟩ := ih hmore hrun.2
    refine ⟨fun time ↦ Nat.casesOn time first later, rfl, fun time ↦ ?_, fun time ↦ ?_⟩
    · cases time with
      | zero =>
        change first <+: later 0
        rw [hfirst]
        exact List.prefix_append first more
      | succ time => exact hgrows time
    · cases time with
      | zero => exact hstart
      | succ time => exact hkept time

end MessageU.Library
