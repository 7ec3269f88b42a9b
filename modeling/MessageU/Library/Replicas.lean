import MessageU.Library.Updates

/-!
# Two replicas that overwrite each other

Each of two replicas holds a value, or none. A replica sets the value that it holds and sends it to
the other one, which overwrites what it holds when it takes what is on its way to it. Nothing tells
the two which of two values is the newer one, so two values that are set while each is on its way to
the other replica are exchanged, and the replicas differ for good.

What saves them is a value that is set while nothing is on its way to the replica that sets it
(`Quiet`). From then on what this replica holds is pending, or is in force behind all that is on its
way to the other one (`Follows`), and both stay so while nobody sets a value (`Move.quiet`,
`Move.follows`). When nothing is on its way any more, the two hold the same (`agree`).

What is on its way are items, of which some set a value and others do not (`inForce`).
-/

set_option autoImplicit false
set_option relaxedAutoImplicit false

namespace MessageU.Library

/-- One of two. -/
inductive Side
  | first
  | second
  deriving DecidableEq

/-- The other one. -/
def Side.other : Side → Side
  | .first => .second
  | .second => .first

theorem Side.other_ne (side : Side) : side.other ≠ side := by
  cases side <;> decide

@[simp] theorem Side.other_other (side : Side) : side.other.other = side := by
  cases side <;> rfl

/-- What is not one side is the other one. -/
theorem Side.eq_other {side actor : Side} (h : side ≠ actor) : side = actor.other := by
  cases side <;> cases actor <;> first | rfl | exact absurd rfl h

theorem Side.forall_iff {P : Side → Prop} : (∀ side, P side) ↔ P .first ∧ P .second :=
  ⟨fun h ↦ ⟨h .first, h .second⟩, fun h side ↦ by cases side <;> [exact h.1; exact h.2]⟩

instance {P : Side → Prop} [DecidablePred P] : Decidable (∀ side, P side) :=
  decidable_of_iff' _ Side.forall_iff

theorem Side.exists_iff {P : Side → Prop} : (∃ side, P side) ↔ P .first ∨ P .second :=
  ⟨fun h ↦ by obtain ⟨side, hside⟩ := h; cases side <;> [exact .inl hside; exact .inr hside],
    fun h ↦ h.elim (fun hfirst ↦ ⟨.first, hfirst⟩) fun hsecond ↦ ⟨.second, hsecond⟩⟩

instance {P : Side → Prop} [DecidablePred P] : Decidable (∃ side, P side) :=
  decidable_of_iff' _ Side.exists_iff

/-- What a replica has still to do with the value that it holds. -/
inductive Phase
  /-- Nothing. -/
  | settled
  /-- It has set the value and has not sent it yet. -/
  | pending
  /-- Nothing, and it does nothing any more. -/
  | halted
  deriving DecidableEq

/-- Two replicas, with the items that are on their way to each of them. -/
structure Replicas (Item Value : Type) where
  held : Side → Option Value
  incoming : Side → List Item
  phase : Side → Phase

namespace Replicas

variable {Item Value : Type} {sets : Side → Item → Option Value}
  {before after : Replicas Item Value}
  {side actor : Side}

/-- Nothing happens to a replica, but for items on their way to it that set nothing. -/
structure Stays (sets : Side → Item → Option Value) (before after : Replicas Item Value)
    (side : Side) : Prop where
  held : after.held side = before.held side
  phase : after.phase side = before.phase side
  incoming : ∃ items, after.incoming side = before.incoming side ++ items ∧
    ∀ item ∈ items, sets side item = none

/-- A replica sets a value. -/
structure SetsValue (sets : Side → Item → Option Value) (before after : Replicas Item Value)
    (actor : Side) : Prop where
  unsettled : after.phase actor ≠ .settled
  incoming : after.incoming actor = before.incoming actor
  other : Stays sets before after actor.other

/-- What else can happen. -/
inductive Move (sets : Side → Item → Option Value) (before after : Replicas Item Value) : Prop
  /-- Nothing happens to either replica. -/
  | stay (hstays : ∀ side, Stays sets before after side)
  /-- The value of a replica is sent. -/
  | sendOff (actor : Side) (item : Item) (hphase : before.phase actor = .pending)
    (hheld : after.held actor = before.held actor)
    (hitem : sets actor.other item = before.held actor)
    (hincoming : after.incoming actor = before.incoming actor)
    (hother : after.held actor.other = before.held actor.other)
    (hotherPhase : after.phase actor.other = before.phase actor.other)
    (hsent : after.incoming actor.other = before.incoming actor.other ++ [item])
  /-- A settled replica takes items from the front of what is on its way to it. -/
  | take (actor : Side) (front : List Item) (hphase : before.phase actor = .settled)
    (hafter : after.phase actor ≠ .pending)
    (hincoming : before.incoming actor = front ++ after.incoming actor)
    (hheld : after.held actor = inForce (sets actor) (before.held actor) front)
    (hother : Stays sets before after actor.other)

/-- What a replica will hold when it has taken all that is on its way to it. -/
def due (sets : Side → Item → Option Value) (replicas : Replicas Item Value) (side : Side) :
    Option Value :=
  inForce (sets side) (replicas.held side) (replicas.incoming side)

/-- No value of a replica is on its way to the other one. -/
structure Quiet (sets : Side → Item → Option Value) (replicas : Replicas Item Value)
    (side : Side) : Prop where
  incoming : ∀ item ∈ replicas.incoming side.other, sets side.other item = none
  phase : replicas.phase side ≠ .pending

/-- The other replica will hold what this one holds, if this one has sent it. -/
def Follows (sets : Side → Item → Option Value) (replicas : Replicas Item Value) (side : Side) :
    Prop :=
  ∀ value, replicas.held side = some value → replicas.phase side = .settled →
    replicas.due sets side.other = some value

theorem Stays.due (h : Stays sets before after side) :
    after.due sets side = before.due sets side := by
  obtain ⟨items, hincoming, hnone⟩ := h.incoming
  rw [Replicas.due, Replicas.due, h.held, hincoming, inForce_append, inForce_of_none hnone]

/-- A replica that takes items will hold what it would have held. -/
theorem due_take {front : List Item}
    (hincoming : before.incoming side = front ++ after.incoming side)
    (hheld : after.held side = inForce (sets side) (before.held side) front) :
    after.due sets side = before.due sets side := by
  rw [due, due, hheld, hincoming, inForce_append]

/-- Items that set nothing make no noise. -/
theorem Stays.quiet_incoming (h : Stays sets before after side)
    (hnone : ∀ item ∈ before.incoming side, sets side item = none) :
    ∀ item ∈ after.incoming side, sets side item = none := by
  obtain ⟨items, hincoming, hitems⟩ := h.incoming
  intro item hitem
  rw [hincoming, List.mem_append] at hitem
  exact hitem.elim (hnone item) (hitems item)

/-- A replica is quiet until it sets a value. -/
theorem Move.quiet (h : Move sets before after) (hquiet : before.Quiet sets side) :
    after.Quiet sets side := by
  cases h with
  | stay hstays =>
    refine ⟨(hstays side.other).quiet_incoming hquiet.incoming, ?_⟩
    rw [(hstays side).phase]
    exact hquiet.phase
  | sendOff actor item hphase hheld hitem hincoming hother hotherPhase hsent =>
    by_cases hsame : side = actor
    · subst hsame
      exact absurd hphase hquiet.phase
    · obtain rfl := Side.eq_other hsame
      obtain ⟨hnone, hnot⟩ := hquiet
      rw [Side.other_other] at hnone
      refine ⟨?_, by rwa [hotherPhase]⟩
      rwa [Side.other_other, hincoming]
  | take actor front hphase hafter hincoming hheld hother =>
    by_cases hsame : side = actor
    · subst hsame
      exact ⟨hother.quiet_incoming hquiet.incoming, hafter⟩
    · obtain rfl := Side.eq_other hsame
      obtain ⟨hnone, hnot⟩ := hquiet
      rw [Side.other_other] at hnone
      refine ⟨fun item hitem ↦ ?_, by rwa [hother.phase]⟩
      rw [Side.other_other] at hitem ⊢
      exact hnone item (hincoming ▸ List.mem_append_right front hitem)

/-- The other replica follows while it is quiet and nobody sets a value. -/
theorem Move.follows (h : Move sets before after) (hquiet : before.Quiet sets side.other)
    (hfollows : before.Follows sets side) : after.Follows sets side := by
  intro value hvalue hsettled
  cases h with
  | stay hstays =>
    rw [(hstays side).held] at hvalue
    rw [(hstays side).phase] at hsettled
    rw [(hstays side.other).due]
    exact hfollows value hvalue hsettled
  | sendOff actor item hphase hheld hitem hincoming hother hotherPhase hsent =>
    by_cases hsame : side = actor
    · subst hsame
      rw [hheld] at hvalue
      rw [due, hsent, inForce_concat, hitem, hvalue, Option.some_or]
    · obtain rfl := Side.eq_other hsame
      rw [Side.other_other] at hquiet
      exact absurd hphase hquiet.phase
  | take actor front hphase hafter hincoming hheld hother =>
    by_cases hsame : side = actor
    · subst hsame
      have hnone : ∀ item ∈ front, sets side item = none := by
        intro item hitem
        have hquietItem := hquiet.incoming item
        rw [Side.other_other] at hquietItem
        exact hquietItem (hincoming ▸ List.mem_append_left _ hitem)
      rw [hheld, inForce_of_none hnone] at hvalue
      rw [hother.due]
      exact hfollows value hvalue hphase
    · obtain rfl := Side.eq_other hsame
      rw [hother.held] at hvalue
      rw [hother.phase] at hsettled
      have hdue := hfollows value hvalue hsettled
      rw [Side.other_other] at hdue ⊢
      rwa [due_take hincoming hheld]

/-- Who sets a value is followed. -/
theorem SetsValue.follows (h : SetsValue sets before after actor) : after.Follows sets actor :=
  fun _ _ hsettled ↦ absurd hsettled h.unsettled

/-- Who does not set the value stays quiet. -/
theorem SetsValue.quiet (h : SetsValue sets before after actor)
    (hquiet : before.Quiet sets actor.other) : after.Quiet sets actor.other := by
  obtain ⟨hnone, hnot⟩ := hquiet
  rw [Side.other_other] at hnone
  refine ⟨?_, by rwa [h.other.phase]⟩
  rwa [Side.other_other, h.incoming]

/-- When nothing is on its way, the replicas agree. -/
theorem agree {replicas : Replicas Item Value} (hfollows : replicas.Follows sets side)
    (hquiet : ∀ side, replicas.Quiet sets side) (hgoing : replicas.phase side ≠ .halted)
    {mine others : Value} (hmine : replicas.held side = some mine)
    (hothers : replicas.held side.other = some others) : mine = others := by
  have hsettled : replicas.phase side = .settled := by
    cases hphase : replicas.phase side with
    | settled => rfl
    | pending => exact absurd hphase (hquiet side).phase
    | halted => exact absurd hphase hgoing
  have hdue := hfollows mine hmine hsettled
  rw [due, inForce_of_none (hquiet side).incoming, hothers] at hdue
  exact (Option.some.inj hdue).symm

end Replicas

end MessageU.Library
