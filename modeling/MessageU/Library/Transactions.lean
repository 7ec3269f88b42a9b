import Mathlib.Logic.Function.Basic
import Mathlib.Tactic.Common

/-!
# A store with transactions and one writer at a time

Several connections share a store. A connection that writes opens a transaction and takes the write
lock; what it has written is seen by itself and by nobody else until it commits. A write that the
store refuses undoes itself and nothing more: the transaction stays open and the lock stays held.
A write while another connection holds the lock raises and leaves the transaction that it opened,
without the lock. Only a commit or a rollback ends a transaction.

`HolderOpen` says that the connection that holds the lock is inside a transaction. Every operation
keeps it, and one lemma each says what the operation does to the transactions of the connections.
-/

set_option autoImplicit false
set_option relaxedAutoImplicit false

namespace MessageU.Library

/-- The store: what is committed, the connection that holds the write lock with the contents that it
sees, and the connections that are inside a transaction. -/
structure Transactions (σ : Type) where
  committed : σ
  writer : Option (ℕ × σ)
  opened : ℕ → Bool

namespace Transactions

variable {σ ε α : Type}

/-- A store that nobody is changing. -/
def quiet (contents : σ) : Transactions σ where
  committed := contents
  writer := none
  opened := fun _ ↦ false

/-- The contents that a connection sees. -/
def view (store : Transactions σ) (connection : ℕ) : σ :=
  match store.writer with
  | some (holder, contents) => if holder = connection then contents else store.committed
  | none => store.committed

/-- The connection that holds the write lock. -/
def holder (store : Transactions σ) : Option ℕ :=
  store.writer.map Prod.fst

/-- No other connection holds the write lock. -/
def Free (store : Transactions σ) (connection : ℕ) : Prop :=
  ∀ holder ∈ store.holder, holder = connection

instance (store : Transactions σ) (connection : ℕ) : Decidable (store.Free connection) :=
  inferInstanceAs (Decidable (∀ holder ∈ store.holder, holder = connection))

/-- A write. `locked` is what it raises while another connection holds the lock. -/
def write (store : Transactions σ) (connection : ℕ) (locked : ε)
    (change : σ → Except ε (σ × α)) : Transactions σ × Except ε α :=
  let opened := Function.update store.opened connection true
  if store.Free connection then
    match change (store.view connection) with
    | .ok (contents, result) =>
      ({ store with writer := some (connection, contents), opened := opened }, .ok result)
    | .error exception =>
      ({ store with writer := some (connection, store.view connection), opened := opened },
        .error exception)
  else ({ store with opened := opened }, .error locked)

/-- A commit: what the holder of the lock has written is there for everybody. -/
def commit (store : Transactions σ) (connection : ℕ) : Transactions σ :=
  if store.holder = some connection then
    { committed := store.view connection
      writer := none
      opened := Function.update store.opened connection false }
  else { store with opened := Function.update store.opened connection false }

/-- A rollback, by closing the connection. -/
def rollback (store : Transactions σ) (connection : ℕ) : Transactions σ :=
  { store with
    writer := if store.holder = some connection then none else store.writer
    opened := Function.update store.opened connection false }

/-- The connection that holds the write lock is inside a transaction. -/
def HolderOpen (store : Transactions σ) : Prop :=
  ∀ connection ∈ store.holder, store.opened connection = true

theorem holderOpen_quiet (contents : σ) : (quiet contents).HolderOpen := by
  intro connection h
  cases h

/-! ### Writes -/

section Write

variable (store : Transactions σ) (connection : ℕ) (locked : ε) (change : σ → Except ε (σ × α))

/-- A write opens a transaction, whatever becomes of it, and touches no other transaction. -/
theorem write_opened : (store.write connection locked change).1.opened =
    Function.update store.opened connection true := by
  unfold write
  split_ifs
  · cases change (store.view connection) <;> rfl
  · rfl

/-- After a write the lock is held by the connection that wrote, or by who held it before. -/
theorem holder_of_write {other : ℕ}
    (h : other ∈ (store.write connection locked change).1.holder) :
    other = connection ∨ other ∈ store.holder := by
  unfold write at h
  split_ifs at h with hfree
  · left
    cases hchange : change (store.view connection) with
    | ok result =>
      rw [hchange] at h
      exact (Option.some.inj h).symm
    | error exception =>
      rw [hchange] at h
      exact (Option.some.inj h).symm
  · exact .inr h

variable {store}

theorem HolderOpen.write (h : store.HolderOpen) :
    (store.write connection locked change).1.HolderOpen := by
  intro other hother
  rw [write_opened]
  rcases holder_of_write store connection locked change hother with rfl | hold
  · exact Function.update_self _ _ _
  · by_cases heq : other = connection
    · rw [heq, Function.update_self]
    · rw [Function.update_of_ne heq]
      exact h other hold

variable {locked change}

/-- A write that nothing stands in the way of does what it would do alone. -/
theorem write_of_ok {contents : σ} {result : α} (hfree : store.Free connection)
    (hchange : change (store.view connection) = .ok (contents, result)) :
    store.write connection locked change =
      ({ store with
          writer := some (connection, contents)
          opened := Function.update store.opened connection true }, .ok result) := by
  rw [Transactions.write, if_pos hfree, hchange]

end Write

/-! ### The end of a transaction -/

section End

variable (store : Transactions σ) (connection : ℕ)

theorem commit_opened : (store.commit connection).opened =
    Function.update store.opened connection false := by
  unfold commit
  split_ifs <;> rfl

/-- After a commit the lock is free or held by another connection. -/
theorem holder_of_commit {other : ℕ} (h : other ∈ (store.commit connection).holder) :
    other ≠ connection ∧ other ∈ store.holder := by
  unfold commit at h
  split_ifs at h with hholder
  · cases h
  · refine ⟨?_, h⟩
    rintro rfl
    exact hholder h

/-- The same for a rollback. -/
theorem holder_of_rollback {other : ℕ} (h : other ∈ (store.rollback connection).holder) :
    other ≠ connection ∧ other ∈ store.holder := by
  unfold rollback at h
  by_cases hholder : store.holder = some connection
  · rw [holder, if_pos hholder] at h
    cases h
  · rw [holder, if_neg hholder] at h
    refine ⟨?_, h⟩
    rintro rfl
    exact hholder h

variable {store}

theorem HolderOpen.commit (h : store.HolderOpen) : (store.commit connection).HolderOpen := by
  intro other hother
  obtain ⟨hne, hold⟩ := holder_of_commit store connection hother
  rw [commit_opened, Function.update_of_ne hne]
  exact h other hold

theorem HolderOpen.rollback (h : store.HolderOpen) : (store.rollback connection).HolderOpen := by
  intro other hother
  obtain ⟨hne, hold⟩ := holder_of_rollback store connection hother
  exact (Function.update_of_ne hne _ _).trans (h other hold)

end End

end Transactions

end MessageU.Library
