import Mathlib.Logic.Function.Basic
import MessageU.Library.Interaction

/-!
# Programs that run among others

`Team` is a set of threads over one shared state. A thread makes one operation at a time, and
between two of its operations the others may change the state. `Setting` is what a thread knows
about this: what it relies on the others to do between two of its operations, which operations it
may make itself, and what they do. `Guarantees` is the calculus of a program in a setting. It says
that every operation of the program is allowed when it is made and that its outcome meets the
postcondition, whatever happens in between. A fact about a program is stable (`Guarantees.stable`),
and programs are composed as they are alone (`Guarantees.attempt`).

If what one thread does is what the others rely on, an operation of one thread keeps what all of
them guarantee (`Sound.perform`). `Within` lists the operations of a program without regard to the
state, and `guarantees_of_within` is the rule for a program all of whose operations are always
allowed.
-/

set_option autoImplicit false
set_option relaxedAutoImplicit false

namespace MessageU.Library

/-- What a thread relies on, what it may do, and what its operations do. -/
structure Setting (S : Signature) (ε σ : Type) where
  /-- How the state may change between two operations of the thread. -/
  rely : σ → σ → Prop
  /-- The operations that the thread may make in a state. -/
  allowed : σ → S.Operation → Prop
  /-- What an operation answers and how it changes the state. -/
  step : σ → (operation : S.Operation) → Except ε (S.Result operation) → σ → Prop

/-- What the others do can be taken together. -/
structure Setting.Tolerant {S : Signature} {ε σ : Type} (setting : Setting S ε σ) : Prop where
  refl : ∀ state, setting.rely state state
  trans : ∀ {first second third}, setting.rely first second → setting.rely second third →
    setting.rely first third

namespace Interaction

variable {S T : Signature} {ε α β σ : Type}

/-! ### Operations of a program -/

/-- Every operation that a program can come to is of a kind. -/
def Within (kind : S.Operation → Prop) : Interaction S ε α → Prop
  | finished _ => True
  | request operation resume => kind operation ∧ ∀ answer, Within kind (resume answer)

theorem Within.attempt {kind : S.Operation → Prop} {program : Interaction S ε α}
    {next : Except ε α → Interaction S ε β} (h : Within kind program)
    (hnext : ∀ outcome, Within kind (next outcome)) : Within kind (program.attempt next) := by
  induction program with
  | finished outcome => exact hnext outcome
  | request operation resume ih => exact ⟨h.1, fun answer ↦ ih answer (h.2 answer)⟩

/-- A sequence of two programs. -/
theorem Within.bind {kind : S.Operation → Prop} {program : Interaction S ε α}
    {next : α → Interaction S ε β} (h : Within kind program)
    (hnext : ∀ value, Within kind (next value)) :
    Within kind (program >>= next) := by
  refine h.attempt fun outcome ↦ ?_
  cases outcome with
  | ok value => exact hnext value
  | error exception => trivial

theorem Within.mono {kind other : S.Operation → Prop} {program : Interaction S ε α}
    (h : Within kind program) (himp : ∀ operation, kind operation → other operation) :
    Within other program := by
  induction program with
  | finished outcome => trivial
  | request operation resume ih => exact ⟨himp operation h.1, fun answer ↦ ih answer (h.2 answer)⟩

/-- What every operation of the kind keeps, a run of the program keeps. -/
theorem Within.run {kind : S.Operation → Prop} {P : σ → Prop}
    {serve : σ → (operation : S.Operation) → σ × Except ε (S.Result operation)}
    (hkeeps : ∀ state operation, kind operation → P state → P (serve state operation).1)
    {program : Interaction S ε α} (h : Within kind program) {state : σ} (hstate : P state) :
    P (program.run serve state).1 := by
  induction program generalizing state with
  | finished outcome => exact hstate
  | request operation resume ih => exact ih _ (h.2 _) (hkeeps state operation h.1 hstate)

/-- Every value that a program can return meets a condition. -/
def Returns (ends : α → Prop) : Interaction S ε α → Prop
  | finished (.ok value) => ends value
  | finished (.error _) => True
  | request _ resume => ∀ answer, Returns ends (resume answer)

/-- A sequence of two programs returns what its second half returns. -/
theorem Returns.bind {ends : β → Prop} {program : Interaction S ε α} {next : α → Interaction S ε β}
    (hnext : ∀ value, Returns ends (next value)) : Returns ends (program >>= next) := by
  rw [bind_eq]
  induction program with
  | finished outcome =>
    cases outcome with
    | ok value => exact hnext value
    | error exception => trivial
  | request operation resume ih => exact ih

/-- A composition over a lower level of operations. -/
theorem expand_attempt (body : (operation : S.Operation) → Interaction T ε (S.Result operation))
    (program : Interaction S ε α) (next : Except ε α → Interaction S ε β) :
    (program.attempt next).expand body =
      (program.expand body).attempt fun outcome ↦ (next outcome).expand body := by
  induction program with
  | finished outcome => rfl
  | request operation resume ih =>
    rw [attempt_request, expand, expand, attempt_attempt]
    exact congrArg _ (funext ih)

/-! ### What a program guarantees -/

/-- Every operation of the program is allowed when it is made, and the outcome meets the
postcondition, whatever the others do in between. -/
def Guarantees (setting : Setting S ε σ) (post : Except ε α → σ → Prop) :
    Interaction S ε α → σ → Prop
  | finished outcome, state => ∀ seen, setting.rely state seen → post outcome seen
  | request operation resume, state => ∀ seen, setting.rely state seen →
    setting.allowed seen operation ∧ ∀ answer after, setting.step seen operation answer after →
      Guarantees setting post (resume answer) after

variable {setting : Setting S ε σ} {post weak : Except ε α → σ → Prop} {program : Interaction S ε α}
  {state : σ}

/-- What a program guarantees it guarantees after the others have done something. -/
theorem Guarantees.stable (hsetting : setting.Tolerant) (h : Guarantees setting post program state)
    {seen : σ} (hseen : setting.rely state seen) : Guarantees setting post program seen := by
  cases program with
  | finished outcome => exact fun later hlater ↦ h later (hsetting.trans hseen hlater)
  | request operation resume => exact fun later hlater ↦ h later (hsetting.trans hseen hlater)

/-- A weaker postcondition is guaranteed as well. -/
theorem Guarantees.mono (h : Guarantees setting post program state)
    (himp : ∀ outcome after, post outcome after → weak outcome after) :
    Guarantees setting weak program state := by
  induction program generalizing state with
  | finished outcome => exact fun seen hseen ↦ himp outcome seen (h seen hseen)
  | request operation resume ih =>
    intro seen hseen
    obtain ⟨hallowed, hresume⟩ := h seen hseen
    exact ⟨hallowed, fun answer after hstep ↦ ih answer (hresume answer after hstep)⟩

/-- Composition: if the first program guarantees what the second one needs, the composition
guarantees what the second one does. -/
theorem Guarantees.attempt {last : Except ε β → σ → Prop} {next : Except ε α → Interaction S ε β}
    (hsetting : setting.Tolerant) (h : Guarantees setting post program state)
    (hnext : ∀ outcome after, post outcome after → Guarantees setting last (next outcome) after) :
    Guarantees setting last (program.attempt next) state := by
  induction program generalizing state with
  | finished outcome => exact hnext outcome state (h state (hsetting.refl state))
  | request operation resume ih =>
    intro seen hseen
    obtain ⟨hallowed, hresume⟩ := h seen hseen
    exact ⟨hallowed, fun answer after hstep ↦ ih answer (hresume answer after hstep)⟩

/-- A sequence of two programs. An exception of the first one is the outcome. -/
theorem Guarantees.bind {last : Except ε β → σ → Prop} {next : α → Interaction S ε β}
    (hsetting : setting.Tolerant) (h : Guarantees setting post program state)
    (herror : ∀ exception after, post (.error exception) after → ∀ seen, setting.rely after seen →
      last (.error exception) seen)
    (hnext : ∀ value after, post (.ok value) after → Guarantees setting last (next value) after) :
    Guarantees setting last (program >>= next) state := by
  refine h.attempt hsetting fun outcome after hpost ↦ ?_
  cases outcome with
  | ok value => exact hnext value after hpost
  | error exception => exact herror exception after hpost

/-- What a program returns meets what everything it can return meets. -/
theorem Guarantees.and_returns {ends : α → Prop} (h : Guarantees setting post program state)
    (hends : Returns ends program) :
    Guarantees setting (fun outcome after ↦ post outcome after ∧ ∀ value, outcome = .ok value →
      ends value) program state := by
  induction program generalizing state with
  | finished outcome =>
    refine fun seen hseen ↦ ⟨h seen hseen, ?_⟩
    rintro value rfl
    exact hends
  | request operation resume ih =>
    intro seen hseen
    obtain ⟨hallowed, hresume⟩ := h seen hseen
    exact ⟨hallowed, fun answer after hstep ↦ ih answer (hresume answer after hstep) (hends answer)⟩

/-- A program all of whose operations are always allowed and keep a fact that the others keep as
well. -/
theorem guarantees_of_within {kind : S.Operation → Prop} {fact : σ → Prop}
    (hrely : ∀ before seen, fact before → setting.rely before seen → fact seen)
    (hkind : ∀ operation seen, kind operation → fact seen → setting.allowed seen operation)
    (hstep : ∀ operation seen answer after, kind operation → fact seen →
      setting.step seen operation answer after → fact after)
    (hpost : ∀ outcome after, fact after → post outcome after)
    (hprogram : Within kind program) (hstate : fact state) :
    Guarantees setting post program state := by
  induction program generalizing state with
  | finished outcome => exact fun seen hseen ↦ hpost outcome seen (hrely state seen hstate hseen)
  | request operation resume ih =>
    intro seen hseen
    have hfact := hrely state seen hstate hseen
    exact ⟨hkind operation seen hprogram.1 hfact, fun answer after hafter ↦
      ih answer (hprogram.2 answer) (hstep operation seen answer after hprogram.1 hfact hafter)⟩

/-- What a program ensures it guarantees among others that leave what it looks at. Assumes: every
operation is allowed. -/
theorem guarantees_of_ensures {τ : Type} (see : σ → τ)
    {transition : τ → (operation : S.Operation) → Except ε (S.Result operation) → τ → Prop}
    {ends : Except ε α → τ → Prop}
    (hrely : ∀ before seen, setting.rely before seen → see seen = see before)
    (hallowed : ∀ operation seen, setting.allowed seen operation)
    (hstep : ∀ operation seen answer after, setting.step seen operation answer after →
      transition (see seen) operation answer (see after))
    (h : Ensures transition ends program (see state)) :
    Guarantees setting (fun outcome after ↦ ends outcome (see after)) program state := by
  induction program generalizing state with
  | finished outcome =>
    intro seen hseen
    show ends outcome (see seen)
    rw [hrely state seen hseen]
    exact h
  | request operation resume ih =>
    intro seen hseen
    refine ⟨hallowed operation seen, fun answer after hafter ↦ ih answer ?_⟩
    have hanswer := hstep operation seen answer after hafter
    rw [hrely state seen hseen] at hanswer
    exact h answer (see after) hanswer

end Interaction

/-! ### Threads over one state -/

/-- Threads over one state, each with what it still has to do. -/
structure Team (T : Type) (S : Signature) (ε α σ : Type) where
  shared : σ
  rest : T → Interaction S ε α

namespace Team

open Interaction

variable {T : Type} {S : Signature} {ε α σ : Type}

/-- The next operation of a thread. `serve` is what an operation does. -/
def perform [DecidableEq T]
    (serve : σ → (operation : S.Operation) → σ × Except ε (S.Result operation))
    (team : Team T S ε α σ) (thread : T) : Team T S ε α σ :=
  match team.rest thread with
  | .finished _ => team
  | .request operation resume =>
    { shared := (serve team.shared operation).1
      rest := Function.update team.rest thread (resume (serve team.shared operation).2) }

/-- A thread that has ended begins a program, in a state that it may prepare. -/
def launch [DecidableEq T] (team : Team T S ε α σ) (thread : T) (shared : σ)
    (program : Interaction S ε α) :
    Team T S ε α σ where
  shared := shared
  rest := Function.update team.rest thread program

/-- Every thread guarantees its postcondition. -/
def Sound (setting : T → Setting S ε σ) (post : T → Except ε α → σ → Prop)
    (team : Team T S ε α σ) : Prop :=
  ∀ thread, Guarantees (setting thread) (post thread) (team.rest thread) team.shared

/-- What a thread may do is what the others rely on. -/
def Compatible (setting : T → Setting S ε σ) : Prop :=
  ∀ first second, first ≠ second → ∀ state operation answer after,
    (setting first).allowed state operation → (setting first).step state operation answer after →
      (setting second).rely state after

variable {setting : T → Setting S ε σ} {post : T → Except ε α → σ → Prop} {team : Team T S ε α σ}

@[simp] theorem launch_rest_self [DecidableEq T] (thread : T) (shared : σ)
    (program : Interaction S ε α) : (team.launch thread shared program).rest thread = program :=
  Function.update_self ..

theorem launch_rest_of_ne [DecidableEq T] {thread other : T} (h : other ≠ thread) (shared : σ)
    (program : Interaction S ε α) :
    (team.launch thread shared program).rest other = team.rest other :=
  Function.update_of_ne h _ _

/-- A thread with its next operation. -/
theorem perform_of_request [DecidableEq T]
    (serve : σ → (operation : S.Operation) → σ × Except ε (S.Result operation))
    {thread : T} {operation : S.Operation}
    {resume : Except ε (S.Result operation) → Interaction S ε α}
    (hrest : team.rest thread = .request operation resume) :
    team.perform serve thread = team.launch thread (serve team.shared operation).1
      (resume (serve team.shared operation).2) := by
  rw [perform, hrest]
  rfl

/-- A thread that has ended makes no operation. -/
theorem perform_of_finished [DecidableEq T]
    (serve : σ → (operation : S.Operation) → σ × Except ε (S.Result operation)) {thread : T}
    {outcome : Except ε α} (hrest : team.rest thread = .finished outcome) :
    team.perform serve thread = team := by
  rw [perform, hrest]

/-- The operation that a thread is about to make is allowed. -/
theorem Sound.allowed (hsetting : ∀ thread, (setting thread).Tolerant) (h : team.Sound setting post)
    {thread : T} {operation : S.Operation}
    {resume : Except ε (S.Result operation) → Interaction S ε α}
    (hrest : team.rest thread = .request operation resume) :
    (setting thread).allowed team.shared operation := by
  have hthread := h thread
  rw [hrest] at hthread
  exact (hthread team.shared ((hsetting thread).refl _)).1

/-- A thread that has ended has met its postcondition. -/
theorem Sound.ended (hsetting : ∀ thread, (setting thread).Tolerant) (h : team.Sound setting post)
    {thread : T} {outcome : Except ε α} (hrest : team.rest thread = .finished outcome) :
    post thread outcome team.shared := by
  have hthread := h thread
  rw [hrest] at hthread
  exact hthread team.shared ((hsetting thread).refl _)

/-- The state changes in a way that every thread relies on. -/
theorem Sound.disturb (hsetting : ∀ thread, (setting thread).Tolerant) (h : team.Sound setting post)
    {after : σ} (hafter : ∀ thread, (setting thread).rely team.shared after) :
    Sound setting post { team with shared := after } :=
  fun thread ↦ (h thread).stable (hsetting thread) (hafter thread)

/-- A thread begins a program. -/
theorem Sound.launch [DecidableEq T] (hsetting : ∀ thread, (setting thread).Tolerant)
    (h : team.Sound setting post)
    {thread : T} {after : σ} {program : Interaction S ε α}
    (hafter : ∀ other, other ≠ thread → (setting other).rely team.shared after)
    (hprogram : Guarantees (setting thread) (post thread) program after) :
    (team.launch thread after program).Sound setting post := by
  intro other
  by_cases hother : other = thread
  · subst hother
    simp only [Team.launch, Function.update_self]
    exact hprogram
  · simp only [Team.launch, Function.update_of_ne hother]
    exact (h other).stable (hsetting other) (hafter other hother)

/-- A thread makes its next operation. What all threads guarantee is kept. -/
theorem Sound.act [DecidableEq T] (hsetting : ∀ thread, (setting thread).Tolerant)
    (hcompatible : Compatible setting) (h : team.Sound setting post) {thread : T}
    {operation : S.Operation} {resume : Except ε (S.Result operation) → Interaction S ε α}
    (hrest : team.rest thread = .request operation resume) {answer : Except ε (S.Result operation)}
    {after : σ} (hstep : (setting thread).step team.shared operation answer after) :
    (team.launch thread after (resume answer)).Sound setting post := by
  have hthread := h thread
  rw [hrest] at hthread
  obtain ⟨hallowed, hresume⟩ := hthread team.shared ((hsetting thread).refl _)
  refine h.launch hsetting (fun other hother ↦ ?_) (hresume answer after hstep)
  exact hcompatible thread other (Ne.symm hother) _ _ _ _ hallowed hstep

/-- An operation of one thread keeps what all of them guarantee. -/
theorem Sound.perform [DecidableEq T] (hsetting : ∀ thread, (setting thread).Tolerant)
    (hcompatible : Compatible setting) (h : team.Sound setting post)
    {serve : σ → (operation : S.Operation) → σ × Except ε (S.Result operation)} {thread : T}
    (hserve : ∀ operation resume, team.rest thread = .request operation resume →
      (setting thread).step team.shared operation (serve team.shared operation).2
        (serve team.shared operation).1) :
    (team.perform serve thread).Sound setting post := by
  cases hrest : team.rest thread with
  | finished outcome =>
    rw [perform_of_finished serve hrest]
    exact h
  | request operation resume =>
    rw [perform_of_request serve hrest]
    exact h.act hsetting hcompatible hrest (hserve operation resume hrest)

end Team

end MessageU.Library
