import Mathlib.Algebra.Order.Group.Nat
import MessageU.Library.EventRun
import MessageU.Library.RelyGuarantee

/-!
# Progress and cost

Two kinds of statements about a system that goes on and on. Along an infinite schedule something
comes about because some events happen again and again (`Recurs`): `Recurs.leads` is one stage of
such an argument, a condition that stays until an event ends it. A program is a tree in which every
answer leads to a smaller one, so that a program whose operations are answered again and again comes
to its end (`finishes`).

Along a finite run events have a cost and a gain. `sumAlong_le` bounds the cost by an account that
the states of the system keep. The operations that a program can still make are such an account
(`AtMost`).
-/

set_option autoImplicit false
set_option relaxedAutoImplicit false

namespace MessageU.Library

/-! ### Again and again -/

/-- It happens again and again. -/
def Recurs (happens : ℕ → Prop) : Prop :=
  ∀ n, ∃ m, n ≤ m ∧ happens m

/-- A condition that stays until it leads to another, and that some event makes lead to it, does
so. -/
theorem Recurs.leads {happens : ℕ → Prop} (h : Recurs happens) (holds reached : ℕ → Prop)
    (start : ℕ)
    (hstays : ∀ n, start ≤ n → holds n → holds (n + 1) ∨ reached (n + 1))
    (hhappens : ∀ n, start ≤ n → holds n → happens n → reached (n + 1)) (hstart : holds start) :
    ∃ n, start ≤ n ∧ reached n := by
  obtain ⟨last, hlast, hevent⟩ := h start
  have hbetween : ∀ length, holds (start + length) ∨ ∃ n, start ≤ n ∧ reached n := by
    intro length
    induction length with
    | zero => exact .inl hstart
    | succ length ih =>
      rcases ih with hholds | hreached
      · exact (hstays (start + length) (Nat.le_add_right ..) hholds).imp_right
          fun hreached ↦ ⟨start + length + 1, Nat.le_succ_of_le (Nat.le_add_right ..), hreached⟩
      · exact .inr hreached
  rcases hbetween (last - start) with hholds | hreached
  · rw [Nat.add_sub_cancel' hlast] at hholds
    exact ⟨last + 1, Nat.le_succ_of_le hlast, hhappens last hlast hholds hevent⟩
  · exact hreached

/-- A bound that does not grow, and that some event makes smaller, leads to what is reached below
it. -/
theorem Recurs.descends {happens : ℕ → Prop} (h : Recurs happens) (within : ℕ → ℕ → Prop)
    (reached : ℕ → Prop) {start : ℕ}
    (hstays : ∀ bound n, within bound n → within bound (n + 1) ∨ reached (n + 1))
    (hhappens : ∀ bound n, within bound n → happens n →
      (∃ less < bound, within less (n + 1)) ∨ reached (n + 1)) {bound : ℕ}
    (hstart : within bound start) : ∃ n, start ≤ n ∧ reached n := by
  induction bound using Nat.strong_induction_on generalizing start with
  | _ bound ih =>
    obtain ⟨n, hn, ⟨less, hless, hwithin⟩ | hreached⟩ := h.leads (fun n ↦ within bound n)
      (fun n ↦ (∃ less < bound, within less n) ∨ reached n) start
      (fun n _ hholds ↦ (hstays bound n hholds).imp_right .inr)
      (fun n _ hholds hevent ↦ hhappens bound n hholds hevent) hstart
    · obtain ⟨last, hlast, hreached⟩ := ih less hless hwithin
      exact ⟨last, hn.trans hlast, hreached⟩
    · exact ⟨n, hn, hreached⟩

namespace Interaction

variable {S : Signature} {ε α β : Type}

/-- A program that moves only when its operation is answered, and is answered again and again,
ends. -/
theorem finishes (programs : ℕ → Interaction S ε α) {answered : ℕ → Prop}
    (hanswered : Recurs answered) (start : ℕ)
    (hmoves : ∀ n, start ≤ n → ∀ operation resume, programs n = .request operation resume →
      programs (n + 1) = programs n ∨ ∃ answer, programs (n + 1) = resume answer)
    (hanswers : ∀ n, start ≤ n → ∀ operation resume, programs n = .request operation resume →
      answered n → ∃ answer, programs (n + 1) = resume answer) :
    ∃ n, start ≤ n ∧ ∃ outcome, programs n = .finished outcome := by
  obtain ⟨program, hprogram⟩ : ∃ program, programs start = program := ⟨_, rfl⟩
  induction program generalizing start with
  | finished outcome => exact ⟨start, le_rfl, outcome, hprogram⟩
  | request operation resume ih =>
    obtain ⟨next, hnext, answer, hresumed⟩ := hanswered.leads
      (fun n ↦ programs n = .request operation resume)
      (fun n ↦ ∃ answer, programs n = resume answer)
      start
      (fun n hn hholds ↦ (hmoves n hn operation resume hholds).imp_left fun h ↦ h.trans hholds)
      (fun n hn hholds ↦ hanswers n hn operation resume hholds) hprogram
    obtain ⟨last, hlast, hfinished⟩ := ih answer next (fun n hn ↦ hmoves n (hnext.trans hn))
      (fun n hn ↦ hanswers n (hnext.trans hn)) hresumed
    exact ⟨last, hnext.trans hlast, hfinished⟩

/-! ### Operations that are left -/

/-- A program makes at most so many operations of a kind. -/
def AtMost (kind : S.Operation → Bool) : Interaction S ε α → ℕ → Prop
  | finished _, _ => True
  | request operation resume, most =>
    (kind operation).toNat ≤ most ∧
      ∀ answer, AtMost kind (resume answer) (most - (kind operation).toNat)

variable {kind : S.Operation → Bool}

theorem AtMost.mono {program : Interaction S ε α} {most more : ℕ} (h : program.AtMost kind most)
    (hle : most ≤ more) : program.AtMost kind more := by
  induction program generalizing most more with
  | finished outcome => trivial
  | request operation resume ih =>
    exact ⟨h.1.trans hle, fun answer ↦ ih answer (h.2 answer) (Nat.sub_le_sub_right hle _)⟩

/-- A program within other kinds makes none. -/
theorem Within.atMost {program : Interaction S ε α}
    (h : program.Within fun operation ↦ kind operation = false) : program.AtMost kind 0 := by
  induction program with
  | finished outcome => trivial
  | request operation resume ih =>
    obtain ⟨hkind, hresume⟩ := h
    rw [AtMost, hkind]
    exact ⟨le_rfl, fun answer ↦ ih answer (hresume answer)⟩

theorem AtMost.attempt {program : Interaction S ε α} {next : Except ε α → Interaction S ε β}
    (most more : ℕ) (h : program.AtMost kind most)
    (hnext : ∀ outcome, (next outcome).AtMost kind more) :
    (program.attempt next).AtMost kind (most + more) := by
  induction program generalizing most with
  | finished outcome => exact (hnext outcome).mono (Nat.le_add_left ..)
  | request operation resume ih =>
    obtain ⟨hmost, hresume⟩ := h
    refine ⟨hmost.trans (Nat.le_add_right ..), fun answer ↦ ?_⟩
    rw [Nat.sub_add_comm hmost]
    exact ih answer (most - _) (hresume answer)

/-- A sequence of two programs. -/
theorem AtMost.bind {program : Interaction S ε α} {next : α → Interaction S ε β} (most more : ℕ)
    (h : program.AtMost kind most) (hnext : ∀ value, (next value).AtMost kind more) :
    (program >>= next).AtMost kind (most + more) := by
  refine h.attempt most more fun outcome ↦ ?_
  cases outcome with
  | ok value => exact hnext value
  | error exception => trivial

end Interaction

/-! ### Cost and gain -/

section Account

variable {State Event : Type} {step : State → Event → State}

/-- The sum of what the events of a run weigh in the states that they happen in. -/
def sumAlong (step : State → Event → State) (weight : State → Event → ℕ) : State → List Event → ℕ
  | _, [] => 0
  | state, event :: rest => weight state event + sumAlong step weight (step state event) rest

/-- A run costs at most what the account of its first state holds and what is gained along it. -/
theorem sumAlong_le {cost : State → Event → ℕ} (gain : State → Event → ℕ)
    (account : State → ℕ → Prop)
    (hstep : ∀ state event balance, account state balance →
      ∃ left, account (step state event) left ∧
        cost state event + left ≤ balance + gain state event)
    {start : State} {balance : ℕ} (hstart : account start balance) (events : List Event) :
    sumAlong step cost start events ≤ balance + sumAlong step gain start events := by
  induction events generalizing start balance with
  | nil => exact Nat.zero_le _
  | cons event rest ih =>
    obtain ⟨left, hleft, hpaid⟩ := hstep start event balance hstart
    have hrest := ih hleft
    rw [sumAlong, sumAlong]
    omega

theorem sumAlong_zero (start : State) (events : List Event) :
    sumAlong step (fun _ _ ↦ 0) start events = 0 := by
  induction events generalizing start with
  | nil => rfl
  | cons event rest ih => rw [sumAlong, ih]

/-- Without a gain. -/
theorem sumAlong_le_of_spent {cost : State → Event → ℕ} (account : State → ℕ → Prop)
    (hstep : ∀ state event balance, account state balance → cost state event ≤ balance ∧
      account (step state event) (balance - cost state event))
    {start : State} {balance : ℕ} (hstart : account start balance) (events : List Event) :
    sumAlong step cost start events ≤ balance := by
  have hle := sumAlong_le (fun _ _ ↦ 0) account (fun state event balance h ↦
    ⟨_, (hstep state event balance h).2, (Nat.add_sub_cancel' (hstep state event balance h).1).le⟩)
    hstart events
  rwa [sumAlong_zero] at hle

theorem sumAlong_mul (factor : ℕ) (weight : State → Event → ℕ) (start : State)
    (events : List Event) :
    sumAlong step (fun state event ↦ factor * weight state event) start events =
      factor * sumAlong step weight start events := by
  induction events generalizing start with
  | nil => rfl
  | cons event rest ih => rw [sumAlong, sumAlong, ih, Nat.mul_add]

end Account

end MessageU.Library
