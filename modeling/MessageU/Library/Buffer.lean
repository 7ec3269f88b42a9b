import MessageU.Library.Interaction
import MessageU.Library.LittleEndian

/-!
# Programs that read a buffer

A program that parses a buffer does two things that a function on the contents of the buffer does
not show. It computes offsets with words of a fixed width, where a sum can wrap around (`wordAdd`),
and it reads at these offsets, where a read may lie outside the buffer. `Signature.withBuffer` adds
such reads to the operations of a program, and `serveBuffer` serves them and keeps a record of them.

`Realizes` relates a program with reads to one that is given what is read. `Realizes.run` says what
this is good for: the two do the same, and every read lies inside the buffer. The relation is built
along the programs, with one rule for each way to compose them.
-/

set_option autoImplicit false
set_option relaxedAutoImplicit false

namespace MessageU.Library

/-! ### Words -/

/-- The sum of two unsigned words. -/
def wordAdd (bits first second : ℕ) : ℕ :=
  (first + second) % 2 ^ bits

/-- A sum that fits does not wrap around. -/
theorem wordAdd_eq {bits first second : ℕ} (h : first + second < 2 ^ bits) :
    wordAdd bits first second = first + second :=
  Nat.mod_eq_of_lt h

/-- A sum of two words that does not fit is too small by what the width can count. -/
theorem wordAdd_eq_sub {bits first second : ℕ} (h : 2 ^ bits ≤ first + second)
    (hlt : first + second < 2 * 2 ^ bits) :
    wordAdd bits first second = first + second - 2 ^ bits := by
  rw [wordAdd, Nat.mod_eq_sub_mod h, Nat.mod_eq_of_lt (by omega)]

/-! ### Reads -/

/-- The operations of a signature, and reads of a buffer. -/
inductive BufferOperation (S : Signature)
  | other (operation : S.Operation)
  /-- The bytes of a range of the buffer. -/
  | read (offset size : ℕ)

/-- A signature with reads of a buffer. -/
def Signature.withBuffer (S : Signature) : Signature where
  Operation := BufferOperation S
  Result
    | .other operation => S.Result operation
    | .read _ _ => Bytes

/-- A state with the ranges that were read. -/
structure Reading (σ : Type) where
  state : σ
  reads : List (ℕ × ℕ)

/-- The ranges lie inside the buffer. -/
def Inside (data : Bytes) (reads : List (ℕ × ℕ)) : Prop :=
  ∀ read ∈ reads, read.1 + read.2 ≤ data.length

namespace Interaction

variable {S : Signature} {ε α β σ : Type}

/-- Serve the operations of a signature, and reads of a buffer. -/
def serveBuffer (serve : σ → (operation : S.Operation) → σ × Except ε (S.Result operation))
    (data : Bytes) (reading : Reading σ) :
    (operation : S.withBuffer.Operation) → Reading σ × Except ε (S.withBuffer.Result operation)
  | .other operation =>
    ({ reading with state := (serve reading.state operation).1 }, (serve reading.state operation).2)
  | .read offset size =>
    ({ reading with reads := reading.reads ++ [(offset, size)] }, .ok (slice data offset size))

/-- A program that reads no buffer. -/
def withoutReads (program : Interaction S ε α) : Interaction S.withBuffer ε α :=
  program.expand fun operation ↦ .request (S := S.withBuffer) (.other operation) .finished

/-- Read a range of the buffer. -/
def readBuffer (offset size : ℕ) : Interaction S.withBuffer ε Bytes :=
  .request (S := S.withBuffer) (.read offset size) .finished

/-- A program with reads does what a program does that is given what is read, and every read lies
inside the buffer. -/
inductive Realizes (data : Bytes) : Interaction S.withBuffer ε α → Interaction S ε α → Prop
  | finished (outcome : Except ε α) : Realizes data (finished outcome) (finished outcome)
  | other (operation : S.Operation)
    {low : Except ε (S.Result operation) → Interaction S.withBuffer ε α}
    {high : Except ε (S.Result operation) → Interaction S ε α}
    (hresume : ∀ answer, Realizes data (low answer) (high answer)) :
    Realizes data (request (S := S.withBuffer) (.other operation) low) (request operation high)
  | read {offset size : ℕ} {low : Except ε Bytes → Interaction S.withBuffer ε α}
    {high : Interaction S ε α} (hinside : offset + size ≤ data.length)
    (hresume : Realizes data (low (.ok (slice data offset size))) high) :
    Realizes data (request (S := S.withBuffer) (.read offset size) low) high

namespace Realizes

variable {data : Bytes}

/-- The outcome of a program is passed on. -/
theorem attempt {low : Interaction S.withBuffer ε α} {high : Interaction S ε α}
    {lowNext : Except ε α → Interaction S.withBuffer ε β}
    {highNext : Except ε α → Interaction S ε β}
    (h : Realizes data low high) (hnext : ∀ outcome, Realizes data (lowNext outcome)
      (highNext outcome)) :
    Realizes data (low.attempt lowNext) (high.attempt highNext) := by
  induction h with
  | finished outcome => exact hnext outcome
  | other operation hresume ih => exact .other operation ih
  | read hinside hresume ih => exact .read hinside ih

/-- A sequence of two programs. -/
theorem bind {low : Interaction S.withBuffer ε α} {high : Interaction S ε α}
    {lowNext : α → Interaction S.withBuffer ε β} {highNext : α → Interaction S ε β}
    (h : Realizes data low high) (hnext : ∀ value, Realizes data (lowNext value) (highNext value)) :
    Realizes data (low >>= lowNext) (high >>= highNext) := by
  refine h.attempt fun outcome ↦ ?_
  cases outcome with
  | ok value => exact hnext value
  | error exception => exact .finished _

/-- A program that does nothing but read, and what follows its outcome. -/
theorem outcome {low : Interaction S.withBuffer ε α} {outcome : Except ε α}
    (h : Realizes data low (Interaction.finished outcome))
    {lowNext : Except ε α → Interaction S.withBuffer ε β} {high : Interaction S ε β}
    (hnext : Realizes data (lowNext outcome) high) : Realizes data (low.attempt lowNext) high := by
  generalize houtcome : (Interaction.finished outcome : Interaction S ε α) = ended at h
  induction h with
  | finished outcome =>
    cases houtcome
    exact hnext
  | other operation hresume ih => cases houtcome
  | read hinside hresume ih => exact .read hinside (ih houtcome)

/-- A program that does nothing but read, and what follows its value. -/
theorem value {low : Interaction S.withBuffer ε α} {value : α}
    (h : Realizes data low (Interaction.finished (.ok value)))
    {lowNext : α → Interaction S.withBuffer ε β} {high : Interaction S ε β}
    (hnext : Realizes data (lowNext value) high) : Realizes data (low >>= lowNext) high :=
  h.outcome hnext

/-- A program with an exception handler. -/
theorem rescue {low : Interaction S.withBuffer ε α} {high : Interaction S ε α}
    {lowHandler : ε → Interaction S.withBuffer ε α} {highHandler : ε → Interaction S ε α}
    (h : Realizes data low high)
    (hhandler : ∀ exception, Realizes data (lowHandler exception) (highHandler exception)) :
    Realizes data (low.rescue lowHandler) (high.rescue highHandler) := by
  refine h.attempt fun outcome ↦ ?_
  cases outcome with
  | ok value => exact .finished _
  | error exception => exact hhandler exception

/-- A read inside the buffer, and what follows it. -/
theorem readBuffer {offset size : ℕ} (hinside : offset + size ≤ data.length)
    {low : Bytes → Interaction S.withBuffer ε α} {high : Interaction S ε α}
    (h : Realizes data (low (slice data offset size)) high) :
    Realizes data (Interaction.readBuffer offset size >>= low) high :=
  .read hinside h

/-- A program that reads no buffer. -/
theorem withoutReads (program : Interaction S ε α) :
    Realizes data program.withoutReads program := by
  induction program with
  | finished outcome => exact .finished outcome
  | request operation resume ih => exact .other operation ih

/-- The two programs do the same, and every read lies inside the buffer. -/
theorem run {low : Interaction S.withBuffer ε α} {high : Interaction S ε α}
    (h : Realizes data low high)
    (serve : σ → (operation : S.Operation) → σ × Except ε (S.Result operation)) (state : σ)
    (reads : List (ℕ × ℕ)) :
    ∃ more, low.run (serveBuffer serve data) ⟨state, reads⟩ =
        (⟨(high.run serve state).1, reads ++ more⟩, (high.run serve state).2) ∧
      Inside data more := by
  induction h generalizing state reads with
  | finished outcome =>
    exact ⟨[], by rw [List.append_nil]; rfl, fun _ h ↦ absurd h List.not_mem_nil⟩
  | other operation hresume ih => exact ih _ (serve state operation).1 reads
  | @read offset size low high hinside hresume ih =>
    obtain ⟨more, hrun, hmore⟩ := ih state (reads ++ [(offset, size)])
    refine ⟨(offset, size) :: more, ?_, List.forall_mem_cons.mpr ⟨hinside, hmore⟩⟩
    rw [List.append_cons]
    exact hrun

end Realizes

end Interaction

end MessageU.Library
