import Mathlib.Data.Finset.Lattice.Fold
import Mathlib.Logic.Relation
import MessageU.Library.Interaction

/-!
# Loops that are given a number of rounds

A loop whose end depends on its input is a program for each number of rounds, and it throws when it
has used them up. `Meter` says how the environment measures it: what is left of the input, which
never grows, and how many reads of it were made, which never shrinks.

A loop `Ends` if more rounds than there is input change nothing any more, and it is `Endless` if it
uses up any number of rounds, each with a read. A loop that ends stops (`Ends.stops`): it makes only
so many reads and then comes to one and the same end. An endless loop does not
(`Endless.not_stops`). The rules say what becomes of a loop with something behind it: `Ends.bind`
and `Settles.ends` for one that ends, `Endless.bind` for one that does not, and `Endless.after` for
an endless loop behind one that ends.

`loop` makes such a loop of a body, which comes to the variables of the next round or to a value.
`NextRound` is one round of it and `Comes` any number of rounds: where the loop comes to, its run
goes on (`Comes.run_loop`).
-/

set_option autoImplicit false
set_option relaxedAutoImplicit false

namespace MessageU.Library

namespace Interaction

/-- How an environment measures the loops that run in it. -/
structure Meter {S : Signature} {ε σ : Type}
    (serve : σ → (operation : S.Operation) → σ × Except ε (S.Result operation)) where
  /-- What is left of the input. -/
  left : σ → ℕ
  /-- The reads that were made. -/
  reads : σ → ℕ
  /-- What a loop throws that has used up its rounds. -/
  exhausted : ε
  left_le : ∀ state operation, left (serve state operation).1 ≤ left state
  reads_le : ∀ state operation, reads state ≤ reads (serve state operation).1

section Loops

variable {S : Signature} {ε σ α β : Type}
  {serve : σ → (operation : S.Operation) → σ × Except ε (S.Result operation)} (meter : Meter serve)

/-- A loop stops: it makes only so many reads, whatever number of rounds it is given, and from some
number of rounds on it comes to the same end. A loop that reads in each round does not stop by using
up its rounds. -/
structure Stops (loop : ℕ → Interaction S ε α) (start : σ) : Prop where
  reads : ∃ bound, ∀ rounds, meter.reads ((loop rounds).run serve start).1 ≤ bound
  ends : ∃ enough, ∀ rounds, enough ≤ rounds →
    (loop rounds).run serve start = (loop enough).run serve start

/-- With more rounds than there is input a loop comes to one end. -/
def Settles (loop : ℕ → Interaction S ε α) (start final : σ) (outcome : Except ε α) : Prop :=
  ∀ rounds, meter.left start < rounds → (loop rounds).run serve start = (final, outcome)

/-- A loop comes to some end. -/
def Ends (loop : ℕ → Interaction S ε α) (start : σ) : Prop :=
  ∃ final outcome, Settles meter loop start final outcome

/-- A loop uses up its rounds, and reads in each of them. -/
def Endless (loop : ℕ → Interaction S ε α) (start : σ) : Prop :=
  ∀ rounds, meter.left start < rounds →
    ((loop rounds).run serve start).2 = .error meter.exhausted ∧
      meter.reads start + rounds ≤ meter.reads ((loop rounds).run serve start).1

variable {meter}

/-- A program gives no input back, and its reads are counted. -/
theorem Meter.moves (program : Interaction S ε α) (start : σ) :
    meter.left (program.run serve start).1 ≤ meter.left start ∧
      meter.reads start ≤ meter.reads (program.run serve start).1 := by
  induction program generalizing start with
  | finished outcome => exact ⟨le_rfl, le_rfl⟩
  | request operation resume ih =>
    obtain ⟨hleft, hreads⟩ := ih (serve start operation).2 (serve start operation).1
    exact ⟨hleft.trans (meter.left_le start operation),
      (meter.reads_le start operation).trans hreads⟩

/-- A loop that comes to an end stops. -/
theorem Ends.stops {loop : ℕ → Interaction S ε α} {start : σ} (h : Ends meter loop start) :
    Stops meter loop start := by
  obtain ⟨final, outcome, hsettles⟩ := h
  let readsOf (rounds : ℕ) : ℕ := meter.reads ((loop rounds).run serve start).1
  constructor
  · refine ⟨max ((Finset.range (meter.left start + 1)).sup readsOf) (meter.reads final),
      fun rounds ↦ ?_⟩
    by_cases hmore : meter.left start < rounds
    · rw [hsettles rounds hmore]
      exact le_max_right _ _
    · have hfew : rounds ∈ Finset.range (meter.left start + 1) :=
        Finset.mem_range.mpr (Nat.lt_succ_of_le (not_lt.mp hmore))
      have hle : readsOf rounds ≤ (Finset.range (meter.left start + 1)).sup readsOf :=
        Finset.le_sup hfew
      exact hle.trans (le_max_left _ _)
  · refine ⟨meter.left start + 1, fun rounds hrounds ↦ ?_⟩
    rw [hsettles rounds hrounds, hsettles (meter.left start + 1) (Nat.lt_succ_self _)]

/-- A loop without end does not stop. -/
theorem Endless.not_stops {loop : ℕ → Interaction S ε α} {start : σ}
    (h : Endless meter loop start) : ¬Stops meter loop start := by
  intro hstops
  obtain ⟨bound, hbound⟩ := hstops.reads
  have hmany := (h (meter.left start + bound + 1) (by omega)).2
  have hfew := hbound (meter.left start + bound + 1)
  omega

/-- A program that is given no rounds comes to its end. -/
theorem ends_const (program : Interaction S ε α) (start : σ) :
    Ends meter (fun _ ↦ program) start :=
  ⟨_, _, fun _ _ ↦ rfl⟩

/-! ### Loops and what follows them -/

variable {first : ℕ → Interaction S ε α} {next : ℕ → α → Interaction S ε β}
  {start middle final : σ} {value : α}

/-- Where a loop settles, there is no more input and there are no fewer reads. -/
theorem Settles.moves {outcome : Except ε α} (h : Settles meter first start final outcome) :
    meter.left final ≤ meter.left start ∧ meter.reads start ≤ meter.reads final := by
  have hend := h (meter.left start + 1) (Nat.lt_succ_self _)
  have hmoves : meter.left ((first (meter.left start + 1)).run serve start).1 ≤ meter.left start ∧
      meter.reads start ≤ meter.reads ((first (meter.left start + 1)).run serve start).1 :=
    Meter.moves _ start
  rwa [hend] at hmoves

/-- What follows a loop that settles. -/
theorem Settles.bind {outcome : Except ε β} (h : Settles meter first start middle (.ok value))
    (hnext : Settles meter (fun rounds ↦ next rounds value) middle final outcome) :
    Settles meter (fun rounds ↦ first rounds >>= next rounds) start final outcome := by
  intro rounds hrounds
  rw [run_bind, h rounds hrounds, proceed_ok]
  exact hnext rounds (h.moves.1.trans_lt hrounds)

/-- Nothing follows a loop that throws. -/
theorem Settles.bind_error {exception : ε}
    (h : Settles meter first start middle (.error exception)) :
    Settles meter (fun rounds ↦ first rounds >>= next rounds) start middle (.error exception) := by
  intro rounds hrounds
  rw [run_bind, h rounds hrounds]
  rfl

/-- What follows a loop whose end is known. -/
theorem Settles.ends (h : Settles meter first start middle (.ok value))
    (hnext : Ends meter (fun rounds ↦ next rounds value) middle) :
    Ends meter (fun rounds ↦ first rounds >>= next rounds) start := by
  obtain ⟨final, outcome, hlast⟩ := hnext
  exact ⟨final, outcome, h.bind hlast⟩

/-- A sequence of two loops that end. -/
theorem Ends.bind (h : Ends meter first start)
    (hnext : ∀ value middle, Ends meter (fun rounds ↦ next rounds value) middle) :
    Ends meter (fun rounds ↦ first rounds >>= next rounds) start := by
  obtain ⟨middle, outcome, hfirst⟩ := h
  cases outcome with
  | error exception => exact ⟨middle, _, hfirst.bind_error⟩
  | ok value => exact hfirst.ends (hnext value middle)

/-- Nothing follows a loop without end. -/
theorem Endless.bind (h : Endless meter first start) :
    Endless meter (fun rounds ↦ first rounds >>= next rounds) start := by
  intro rounds hrounds
  obtain ⟨houtcome, hreads⟩ := h rounds hrounds
  rw [run_bind, houtcome]
  exact ⟨rfl, hreads⟩

/-- A loop without end that follows a loop that settles. -/
theorem Endless.after (h : Settles meter first start middle (.ok value))
    (hnext : Endless meter (fun rounds ↦ next rounds value) middle) :
    Endless meter (fun rounds ↦ first rounds >>= next rounds) start := by
  intro rounds hrounds
  obtain ⟨hleft, hbefore⟩ := h.moves
  obtain ⟨houtcome, hreads⟩ := hnext rounds (hleft.trans_lt hrounds)
  rw [run_bind, h rounds hrounds, proceed_ok]
  exact ⟨houtcome, (Nat.add_le_add_right hbefore rounds).trans hreads⟩

end Loops

/-! ### Loops with a body -/

section Body

variable {S : Signature} {ε σ τ α : Type}

/-- What follows a round: another one, or the end. -/
def goOn (again : τ → Interaction S ε α) : τ ⊕ α → Interaction S ε α
  | .inl next => again next
  | .inr value => finished (.ok value)

/-- A loop whose body comes to the variables of the next round or to a value. -/
def loop (exhausted : ε) (body : τ → Interaction S ε (τ ⊕ α)) : (rounds : ℕ) → τ → Interaction S ε α
  | 0, _ => finished (.error exhausted)
  | rounds + 1, current => body current >>= goOn (loop exhausted body rounds)

/-- A round comes to the next one. Both begin at a state and with values of the variables. -/
def NextRound (serve : σ → (operation : S.Operation) → σ × Except ε (S.Result operation))
    (body : τ → Interaction S ε (τ ⊕ α)) (now next : σ × τ) : Prop :=
  (body now.2).run serve now.1 = (next.1, .ok (.inl next.2))

/-- A loop that begins a round comes to another one. -/
abbrev Comes (serve : σ → (operation : S.Operation) → σ × Except ε (S.Result operation))
    (body : τ → Interaction S ε (τ ⊕ α)) : σ × τ → σ × τ → Prop :=
  Relation.ReflTransGen (NextRound serve body)

variable {serve : σ → (operation : S.Operation) → σ × Except ε (S.Result operation)}
  {body : τ → Interaction S ε (τ ⊕ α)} {start now next : σ × τ}

/-- The run of a loop goes on with the next round. -/
theorem NextRound.run_loop (h : NextRound serve body now next) (exhausted : ε) (rounds : ℕ) :
    (loop exhausted body (rounds + 1) now.2).run serve now.1 =
      (loop exhausted body rounds next.2).run serve next.1 := by
  rw [loop, run_bind, h]
  rfl

/-- The run of a loop goes on where the loop comes to. -/
theorem Comes.run_loop (h : Comes serve body start now) (exhausted : ε) :
    ∃ count, ∀ rounds, (loop exhausted body (rounds + count) start.2).run serve start.1 =
      (loop exhausted body rounds now.2).run serve now.1 := by
  induction h with
  | refl => exact ⟨0, fun _ ↦ rfl⟩
  | tail _ hnext ih =>
    obtain ⟨count, hcount⟩ := ih
    refine ⟨count + 1, fun rounds ↦ ?_⟩
    rw [← hnext.run_loop exhausted rounds, ← hcount (rounds + 1), Nat.add_assoc, Nat.add_comm 1]

/-- A loop that always comes to another round uses up its rounds. -/
theorem loop_exhausted {P : σ × τ → Prop}
    (hgoesOn : ∀ now, P now → ∃ next, NextRound serve body now next ∧ P next) (exhausted : ε)
    (hstart : P start) (rounds : ℕ) :
    ((loop exhausted body rounds start.2).run serve start.1).2 = .error exhausted := by
  induction rounds generalizing start with
  | zero => rfl
  | succ rounds ih =>
    obtain ⟨next, hnext, hholds⟩ := hgoesOn start hstart
    rw [hnext.run_loop exhausted rounds]
    exact ih hholds

end Body

end Interaction

end MessageU.Library
