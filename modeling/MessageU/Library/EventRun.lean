import Mathlib.Tactic.Common

/-!
# Runs of a system driven by events

A system is a state type, an event type and a step function; a run is a list of events folded
over a start state. `Along` says that every event of a run meets a guard in the state it happens
in, which is how an assumption about a run (no failing call, no two overlapping requests) is
stated. `Along.invariant` is the induction all safety results use: an invariant kept by every
guarded step holds at the end of every guarded run. `Along.mono` trades a guard for a weaker one.

Two systems with the same events are compared by a map between their states that commutes with
every step; `runEvents_comm` and `Along.comm` carry runs and guards across it.
-/

set_option autoImplicit false
set_option relaxedAutoImplicit false

namespace MessageU.Library

variable {State Event Other : Type}

/-- The state a run of events ends in. -/
def runEvents (step : State → Event → State) (start : State) (events : List Event) : State :=
  events.foldl step start

variable {step : State → Event → State}

@[simp] theorem runEvents_nil (start : State) : runEvents step start [] = start :=
  rfl

@[simp] theorem runEvents_cons (start : State) (event : Event) (rest : List Event) :
    runEvents step start (event :: rest) = runEvents step (step start event) rest :=
  rfl

/-- A run in two parts goes on from where its first part ended. -/
theorem runEvents_append (start : State) (first second : List Event) :
    runEvents step start (first ++ second) =
      runEvents step (runEvents step start first) second :=
  List.foldl_append

/-- Every event of the run meets the guard in the state it happens in. -/
def Along (step : State → Event → State) (guard : State → Event → Prop) :
    State → List Event → Prop
  | _, [] => True
  | state, event :: rest => guard state event ∧ Along step guard (step state event) rest

instance (guard : State → Event → Prop) [∀ state event, Decidable (guard state event)] :
    (start : State) → (events : List Event) → Decidable (Along step guard start events)
  | _, [] => isTrue trivial
  | start, event :: rest =>
    haveI := instDecidableAlong guard (step start event) rest
    inferInstanceAs (Decidable (_ ∧ _))

namespace Along

variable {guard weaker : State → Event → Prop} {start : State} {events : List Event}

/-- An invariant kept by every guarded step holds at the end of every guarded run. -/
theorem invariant {P : State → Prop}
    (hstep : ∀ state event, guard state event → P state → P (step state event))
    (hstart : P start) (hrun : Along step guard start events) :
    P (runEvents step start events) := by
  induction events generalizing start with
  | nil => exact hstart
  | cons event rest ih => exact ih (hstep start event hrun.1 hstart) hrun.2

/-- A guard that every event of a list meets in every state. -/
theorem of_forall (h : ∀ event ∈ events, ∀ state, guard state event) :
    Along step guard start events := by
  induction events generalizing start with
  | nil => trivial
  | cons event rest ih =>
    exact ⟨h event List.mem_cons_self start,
      ih fun other hother ↦ h other (List.mem_cons_of_mem _ hother)⟩

/-- A run whose steps meet a guard meets every weaker guard. -/
theorem mono (hrun : Along step guard start events)
    (himp : ∀ state event, guard state event → weaker state event) :
    Along step weaker start events := by
  induction events generalizing start with
  | nil => trivial
  | cons event rest ih => exact ⟨himp start event hrun.1, ih hrun.2⟩

/-- A run that meets two guards meets both at every step. -/
theorem and {other : State → Event → Prop} (hrun : Along step guard start events)
    (hother : Along step other start events) :
    Along step (fun state event ↦ guard state event ∧ other state event) start events := by
  induction events generalizing start with
  | nil => trivial
  | cons event rest ih => exact ⟨⟨hrun.1, hother.1⟩, ih hrun.2 hother.2⟩

/-- Guarded runs compose. -/
theorem append_iff {first second : List Event} :
    Along step guard start (first ++ second) ↔
      Along step guard start first ∧ Along step guard (runEvents step start first) second := by
  induction first generalizing start with
  | nil => exact ⟨fun h ↦ ⟨trivial, h⟩, fun h ↦ h.2⟩
  | cons event rest ih =>
    simp only [List.cons_append, Along, runEvents_cons, ih, and_assoc]

end Along

/-- The last event of the run that meets a guard meets a condition as well. -/
def LastMeets (step : State → Event → State) (guard condition : State → Event → Prop) :
    State → List Event → Prop
  | _, [] => True
  | state, event :: rest =>
    (guard state event → Along step (fun state event ↦ ¬guard state event) (step state event) rest →
      condition state event) ∧ LastMeets step guard condition (step state event) rest

instance (guard condition : State → Event → Prop) [∀ state event, Decidable (guard state event)]
    [∀ state event, Decidable (condition state event)] :
    (start : State) → (events : List Event) →
      Decidable (LastMeets step guard condition start events)
  | _, [] => isTrue trivial
  | start, event :: rest =>
    haveI := instDecidableLastMeets guard condition (step start event) rest
    inferInstanceAs (Decidable (_ ∧ _))

/-- What the last event that meets a guard establishes, and every event behind it keeps, holds at
the end of the run. -/
theorem LastMeets.establishes {guard condition always : State → Event → Prop} {P Q : State → Prop}
    {start : State} {events : List Event} (hlast : LastMeets step guard condition start events)
    (hrun : Along step always start events)
    (hstep : ∀ state event, always state event → P state → P (step state event))
    (hmeets : ∀ state event, always state event → P state → guard state event →
      condition state event → Q (step state event))
    (hkeep : ∀ state event, always state event → P state → ¬guard state event → Q state →
      Q (step state event))
    (hstart : P start) (hbefore : Q start) : Q (runEvents step start events) := by
  -- while an event that meets the guard is still to come, nothing is known of `Q`
  have hopen : Q start ∨ ¬Along step (fun state event ↦ ¬guard state event) start events :=
    .inl hbefore
  clear hbefore
  induction events generalizing start with
  | nil => exact hopen.resolve_right fun hnot ↦ hnot trivial
  | cons event rest ih =>
    refine ih hlast.2 hrun.2 (hstep start event hrun.1 hstart) ?_
    by_cases hlater : Along step (fun state event ↦ ¬guard state event) (step start event) rest
    · left
      by_cases hguard : guard start event
      · exact hmeets start event hrun.1 hstart hguard (hlast.1 hguard hlater)
      · exact hkeep start event hrun.1 hstart hguard
          (hopen.resolve_right fun hnot ↦ hnot ⟨hguard, hlater⟩)
    · exact .inr hlater

/-- An invariant kept by every step holds at the end of every run. -/
theorem runEvents_invariant {P : State → Prop}
    (hstep : ∀ state event, P state → P (step state event)) {start : State}
    (hstart : P start) (events : List Event) :
    P (runEvents step start events) := by
  induction events generalizing start with
  | nil => exact hstart
  | cons event rest ih => exact ih (hstep start event hstart)

/-- A map that commutes with every step commutes with every run. -/
theorem runEvents_comm {stepOther : Other → Event → Other} {view : Other → State}
    (hstep : ∀ state event, step (view state) event = view (stepOther state event))
    (start : Other) (events : List Event) :
    runEvents step (view start) events = view (runEvents stepOther start events) := by
  induction events generalizing start with
  | nil => rfl
  | cons event rest ih => rw [runEvents_cons, runEvents_cons, hstep, ih]

/-- A guard on the image of a run is a guard on the run. -/
theorem Along.comm {stepOther : Other → Event → Other} {view : Other → State}
    (hstep : ∀ state event, step (view state) event = view (stepOther state event))
    {guard : State → Event → Prop} {start : Other} {events : List Event} :
    Along step guard (view start) events ↔
      Along stepOther (fun state event ↦ guard (view state) event) start events := by
  induction events generalizing start with
  | nil => exact Iff.rfl
  | cons event rest ih => rw [Along, Along, hstep, ih]

/-- A reflexive and transitive relation that holds across every step holds across every run. -/
theorem runEvents_related {R : State → State → Prop}
    (hrefl : ∀ state, R state state)
    (htrans : ∀ {first second third}, R first second → R second third →
      R first third)
    (hstep : ∀ state event, R state (step state event)) (start : State)
    (events : List Event) : R start (runEvents step start events) := by
  induction events generalizing start with
  | nil => exact hrefl start
  | cons event rest ih => exact htrans (hstep start event) (ih (step start event))

end MessageU.Library
