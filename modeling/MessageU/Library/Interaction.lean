import Mathlib.Tactic.Common

/-!
# Programs that talk to an environment

A program here is a finite tree of requests. At each node it names an operation and waits for
what the environment answers, a result or an exception, and at each leaf it has returned or
raised. `Signature` lists the operations with the types of their results and `Interaction` is the
tree. Nothing is said about what an operation does: the same program is run on one state without
interference (`Interaction.run`), rewritten over a lower level of operations (`expand`), or
stepped one request at a time among other programs.

`attempt` runs a program and passes its outcome on, so that sequencing (the monad) and exception
handlers (`rescue`) are both instances of it, and `run_attempt` gives the meaning of either.
`Ensures` is the precondition calculus: the program ends in the postcondition whatever the
environment answers, where a transition relation says what it may answer and how the state moves
with it. `Ensures.attempt` composes two such facts and `Ensures.mono` weakens one.
-/

set_option autoImplicit false
set_option relaxedAutoImplicit false

namespace MessageU.Library

/-- The operations a program may request of its environment, with the type of what each
returns. -/
structure Signature where
  /-- The operations. -/
  Operation : Type
  /-- What an operation returns when it does not raise. -/
  Result : Operation → Type

/-- A program over the operations of a signature: it has ended in a value or an exception, or it
requests an operation and goes on with the answer. -/
inductive Interaction (S : Signature) (ε α : Type) : Type
  | finished (outcome : Except ε α)
  | request (operation : S.Operation)
      (resume : Except ε (S.Result operation) → Interaction S ε α)

namespace Interaction

variable {S T : Signature} {ε α β σ : Type}

/-- Run a program and pass its outcome, a value or an exception, to the next one. -/
def attempt : Interaction S ε α → (Except ε α → Interaction S ε β) → Interaction S ε β
  | finished outcome, next => next outcome
  | request operation resume, next => request operation fun answer ↦ (resume answer).attempt next

/-- What follows a program that returned; an exception is passed through. -/
def proceed (next : α → Interaction S ε β) : Except ε α → Interaction S ε β
  | .ok value => next value
  | .error exception => finished (.error exception)

instance : Monad (Interaction S ε) where
  pure value := finished (.ok value)
  bind program next := program.attempt (proceed next)

/-- Run a program and hand an exception to a handler. -/
def rescue (program : Interaction S ε α) (handler : ε → Interaction S ε α) :
    Interaction S ε α :=
  program.attempt fun
    | .ok value => finished (.ok value)
    | .error exception => handler exception

@[simp] theorem attempt_finished (outcome : Except ε α)
    (next : Except ε α → Interaction S ε β) : (finished outcome).attempt next = next outcome :=
  rfl

@[simp] theorem attempt_request (operation : S.Operation)
    (resume : Except ε (S.Result operation) → Interaction S ε α)
    (next : Except ε α → Interaction S ε β) :
    (request operation resume).attempt next =
      request operation fun answer ↦ (resume answer).attempt next :=
  rfl

@[simp] theorem proceed_ok (next : α → Interaction S ε β) (value : α) :
    proceed next (.ok value) = next value :=
  rfl

@[simp] theorem proceed_error (next : α → Interaction S ε β) (exception : ε) :
    proceed next (.error exception) = finished (.error exception) :=
  rfl

@[simp] theorem pure_eq (value : α) :
    (pure value : Interaction S ε α) = finished (.ok value) :=
  rfl

@[simp] theorem bind_eq (program : Interaction S ε α) (next : α → Interaction S ε β) :
    (program >>= next) = program.attempt (proceed next) :=
  rfl

/-- Attempts associate: the outcome of a composition is passed on as the outcome of its second
half. -/
theorem attempt_attempt {γ : Type} (program : Interaction S ε α)
    (next : Except ε α → Interaction S ε β) (last : Except ε β → Interaction S ε γ) :
    (program.attempt next).attempt last = program.attempt fun r ↦ (next r).attempt last := by
  induction program with
  | finished outcome => rfl
  | request operation resume ih =>
    simp only [attempt_request]
    congr 1
    funext answer
    exact ih answer

/-! ### Running a program alone -/

/-- Run a program on a state that nothing else changes. `serve` is what an operation does to the
state and what it answers. -/
def run (serve : σ → (operation : S.Operation) → σ × Except ε (S.Result operation)) :
    Interaction S ε α → σ → σ × Except ε α
  | finished outcome, state => (state, outcome)
  | request operation resume, state =>
    run serve (resume (serve state operation).2) (serve state operation).1

variable (serve : σ → (operation : S.Operation) → σ × Except ε (S.Result operation))

@[simp] theorem run_finished (outcome : Except ε α) (state : σ) :
    run serve (finished outcome) state = (state, outcome) :=
  rfl

@[simp] theorem run_request (operation : S.Operation)
    (resume : Except ε (S.Result operation) → Interaction S ε α) (state : σ) :
    run serve (request operation resume) state =
      run serve (resume (serve state operation).2) (serve state operation).1 :=
  rfl

/-- Running a composition runs the first program and then the second on what it left. -/
theorem run_attempt (program : Interaction S ε α) (next : Except ε α → Interaction S ε β)
    (state : σ) :
    run serve (program.attempt next) state =
      run serve (next (run serve program state).2) (run serve program state).1 := by
  induction program generalizing state with
  | finished outcome => rfl
  | request operation resume ih => exact ih _ _

/-- Sequencing: what runs after a program that returned. -/
theorem run_bind (program : Interaction S ε α) (next : α → Interaction S ε β) (state : σ) :
    run serve (program >>= next) state =
      run serve (proceed next (run serve program state).2) (run serve program state).1 :=
  run_attempt serve program _ state

/-! ### A lower level of operations -/

/-- Replace every operation by a program over a lower level of operations. -/
def expand (body : (operation : S.Operation) → Interaction T ε (S.Result operation)) :
    Interaction S ε α → Interaction T ε α
  | finished outcome => finished outcome
  | request operation resume => (body operation).attempt fun answer ↦ (resume answer).expand body

/-! ### What a program ensures -/

/-- The program ends in the postcondition whatever the environment answers. `transition` relates
the state before an operation, its answer and the state after it. -/
def Ensures (transition : σ → (operation : S.Operation) → Except ε (S.Result operation) → σ → Prop)
    (post : Except ε α → σ → Prop) : Interaction S ε α → σ → Prop
  | finished outcome, state => post outcome state
  | request operation resume, state =>
    ∀ answer after, transition state operation answer after →
      Ensures transition post (resume answer) after

variable {transition : σ → (operation : S.Operation) → Except ε (S.Result operation) → σ → Prop}

/-- A program ends. -/
theorem ensures_true (program : Interaction S ε α) (state : σ) :
    Ensures transition (fun _ _ ↦ True) program state := by
  induction program generalizing state with
  | finished outcome => trivial
  | request operation resume ih => exact fun answer after _ ↦ ih answer after

/-- A weaker postcondition is ensured as well. -/
theorem Ensures.mono {strong weak : Except ε α → σ → Prop} {program : Interaction S ε α}
    {state : σ} (h : Ensures transition strong program state)
    (himp : ∀ outcome after, strong outcome after → weak outcome after) :
    Ensures transition weak program state := by
  induction program generalizing state with
  | finished outcome => exact himp outcome state h
  | request operation resume ih =>
    intro answer after hstep
    exact ih answer (h answer after hstep)

/-- Composition: if the first program ensures what the second one needs, the composition ensures
what the second one does. -/
theorem Ensures.attempt {middle : Except ε α → σ → Prop} {post : Except ε β → σ → Prop}
    {program : Interaction S ε α} {next : Except ε α → Interaction S ε β} {state : σ}
    (h : Ensures transition middle program state)
    (hnext : ∀ outcome after, middle outcome after → Ensures transition post (next outcome) after) :
    Ensures transition post (program.attempt next) state := by
  induction program generalizing state with
  | finished outcome => exact hnext outcome state h
  | request operation resume ih =>
    intro answer after hstep
    exact ih answer (h answer after hstep)

/-- A sequence of two programs of which the first one returns. -/
theorem Ensures.bind {middle : α → σ → Prop} {post : Except ε β → σ → Prop}
    {program : Interaction S ε α} {next : α → Interaction S ε β} {state : σ}
    (h : Ensures transition (fun outcome after ↦ ∃ value, outcome = .ok value ∧ middle value after)
      program state)
    (hnext : ∀ value after, middle value after → Ensures transition post (next value) after) :
    Ensures transition post (program >>= next) state := by
  refine h.attempt fun outcome after hmiddle ↦ ?_
  obtain ⟨value, rfl, hvalue⟩ := hmiddle
  exact hnext value after hvalue

/-- What every operation's body keeps, an expanded program keeps. -/
theorem Ensures.expand {P : σ → Prop} {lower : σ → (operation : T.Operation) →
      Except ε (T.Result operation) → σ → Prop}
    {body : (operation : S.Operation) → Interaction T ε (S.Result operation)}
    (hbody : ∀ operation state, P state →
      Ensures lower (fun _ after ↦ P after) (body operation) state)
    (program : Interaction S ε α) {state : σ} (hstate : P state) :
    Ensures lower (fun _ after ↦ P after) (program.expand body) state := by
  induction program generalizing state with
  | finished outcome => exact hstate
  | request operation resume ih =>
    exact Ensures.attempt (hbody operation state hstate) fun answer _ hafter ↦ ih answer hafter

end Interaction

end MessageU.Library
