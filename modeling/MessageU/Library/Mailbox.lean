import Mathlib.Data.List.Infix
import Mathlib.Logic.Function.Basic

/-!
# Mailboxes emptied by reading and then removing

A mailbox accepts items at its end. A reader empties it in two steps: it takes a copy of what is
waiting, and later removes the items of its copy and hands them over. Items may be accepted between
the two steps. `Mailbox.Step` has both, and the ways in which the second step can fail: the reader
gives its copy up, or, where losses are allowed, removes the items without handing them over.

A copy may only be taken while no other reader holds one. Under this rule a copy stays a beginning
of what is waiting (`Step.consistent`), so what has been handed over and what is waiting are
together a sublist of what was accepted, in order; without losses they are all of it
(`Step.lossless`).

Where the rule is not kept, one reader still gets what it gets in order. `InOrder` is its side of a
mailbox whose items have increasing keys: other readers may remove what it holds, and items that
come later come behind.
-/

set_option autoImplicit false
set_option relaxedAutoImplicit false

namespace MessageU.Library

variable {Reader Item : Type} [DecidableEq Reader]

/-- A mailbox: the items ever accepted, those handed over, those waiting and the copies that readers
hold. -/
structure Mailbox (Reader Item : Type) where
  accepted : List Item
  delivered : List Item
  waiting : List Item
  held : Reader → Option (List Item)

namespace Mailbox

/-- One step of a mailbox; `lossy` says whether items may be removed without being handed over. -/
inductive Step (lossy : Prop) (box : Mailbox Reader Item) : Mailbox Reader Item → Prop
  /-- Nothing happens to the mailbox. -/
  | stay : Step lossy box box
  /-- An item arrives. -/
  | accept (item : Item) :
    Step lossy box
      { box with accepted := box.accepted ++ [item], waiting := box.waiting ++ [item] }
  /-- A reader takes a copy of what is waiting. -/
  | take (reader : Reader) (hfree : ∀ other, other ≠ reader → box.held other = none) :
    Step lossy box { box with held := Function.update box.held reader (some box.waiting) }
  /-- A reader gives its copy up, if it holds one. -/
  | release (reader : Reader) :
    Step lossy box { box with held := Function.update box.held reader none }
  /-- A reader removes the items of its copy and hands them over. -/
  | deliver (reader : Reader) (items rest : List Item) (hheld : box.held reader = some items)
    (hwaiting : box.waiting = items ++ rest) :
    Step lossy box
      { box with
        delivered := box.delivered ++ items
        waiting := rest
        held := Function.update box.held reader none }
  /-- A reader removes the items of its copy and they are lost. -/
  | lose (reader : Reader) (items rest : List Item) (hlossy : lossy)
    (hheld : box.held reader = some items) (hwaiting : box.waiting = items ++ rest) :
    Step lossy box
      { box with waiting := rest, held := Function.update box.held reader none }

/-- A held copy is a beginning of what is waiting, at most one reader holds a copy, and what was
handed over and what is waiting appear in what was accepted, in order. -/
structure Consistent (box : Mailbox Reader Item) : Prop where
  held_front : ∀ reader items, box.held reader = some items → items <+: box.waiting
  held_unique : ∀ reader other, box.held reader ≠ none → box.held other ≠ none → reader = other
  sublist : (box.delivered ++ box.waiting).Sublist box.accepted

/-- Everything accepted was handed over or is waiting. -/
def Lossless (box : Mailbox Reader Item) : Prop :=
  box.delivered ++ box.waiting = box.accepted

variable {lossy : Prop} {box after : Mailbox Reader Item}

/-- A copy that is held after one reader has let go was held by another one. -/
theorem held_of_update {held : Reader → Option (List Item)} {reader other : Reader}
    {items : List Item} (h : Function.update held reader none other = some items) :
    other ≠ reader ∧ held other = some items := by
  by_cases hsame : other = reader
  · rw [hsame, Function.update_self] at h
    cases h
  · exact ⟨hsame, by rwa [Function.update_of_ne hsame] at h⟩

/-- Letting go keeps holders unique. -/
theorem Consistent.unique_update (h : Consistent box) (reader : Reader) (first second : Reader)
    (hfirst : Function.update box.held reader none first ≠ none)
    (hsecond : Function.update box.held reader none second ≠ none) : first = second := by
  obtain ⟨items, hitems⟩ := Option.ne_none_iff_exists'.mp hfirst
  obtain ⟨others, hothers⟩ := Option.ne_none_iff_exists'.mp hsecond
  refine h.held_unique first second ?_ ?_
  · rw [(held_of_update hitems).2]
    exact Option.some_ne_none items
  · rw [(held_of_update hothers).2]
    exact Option.some_ne_none others

/-- After the only holder has let go, nobody holds a copy. -/
theorem Consistent.none_held (h : Consistent box) {reader : Reader} {items : List Item}
    (hheld : box.held reader = some items) (other : Reader) :
    Function.update box.held reader none other = none := by
  by_contra hne
  obtain ⟨others, hothers⟩ := Option.ne_none_iff_exists'.mp hne
  obtain ⟨hdifferent, hother⟩ := held_of_update hothers
  refine hdifferent (h.held_unique other reader ?_ ?_)
  · rw [hother]
    exact Option.some_ne_none others
  · rw [hheld]
    exact Option.some_ne_none items

/-- Every step keeps a mailbox consistent. -/
theorem Step.consistent (hstep : Step lossy box after) (h : Consistent box) :
    Consistent after := by
  cases hstep with
  | stay => exact h
  | accept item =>
    refine ⟨fun reader items hheld ↦ ?_, h.held_unique, ?_⟩
    · exact (h.held_front reader items hheld).trans (List.prefix_append _ _)
    · rw [← List.append_assoc]
      exact h.sublist.append (List.Sublist.refl [item])
  | take reader hfree =>
    refine ⟨fun other items hheld ↦ ?_, fun first second hfirst hsecond ↦ ?_, h.sublist⟩
    · change Function.update box.held reader (some box.waiting) other = some items at hheld
      by_cases hsame : other = reader
      · rw [hsame, Function.update_self] at hheld
        cases hheld
        exact List.prefix_rfl
      · rw [Function.update_of_ne hsame, hfree other hsame] at hheld
        cases hheld
    · have honly : ∀ other, Function.update box.held reader (some box.waiting) other ≠ none →
          other = reader := by
        intro other hother
        by_contra hsame
        exact hother (by rw [Function.update_of_ne hsame, hfree other hsame])
      rw [honly first hfirst, honly second hsecond]
  | release reader =>
    exact ⟨fun other items hheld ↦ h.held_front other items (held_of_update hheld).2,
      h.unique_update reader, h.sublist⟩
  | deliver reader items rest hheld hwaiting =>
    refine ⟨fun other others hother ↦ ?_, h.unique_update reader, ?_⟩
    · have hnone : some others = none := hother.symm.trans (h.none_held hheld other)
      cases hnone
    · rw [List.append_assoc, ← hwaiting]
      exact h.sublist
  | lose reader items rest hlossy hheld hwaiting =>
    refine ⟨fun other others hother ↦ ?_, h.unique_update reader, ?_⟩
    · have hnone : some others = none := hother.symm.trans (h.none_held hheld other)
      cases hnone
    · have hrest : rest.Sublist box.waiting := by
        rw [hwaiting]
        exact List.sublist_append_right items rest
      exact ((List.Sublist.refl box.delivered).append hrest).trans h.sublist

/-- Without losses, everything accepted is accounted for after every step. -/
theorem Step.lossless (hstep : Step lossy box after) (hlossy : ¬lossy) (h : Lossless box) :
    Lossless after := by
  cases hstep with
  | stay => exact h
  | accept item =>
    rw [Lossless, ← List.append_assoc]
    exact congrArg (· ++ [item]) h
  | take reader hfree => exact h
  | release reader => exact h
  | deliver reader items rest hheld hwaiting =>
    rw [Lossless, List.append_assoc, ← hwaiting]
    exact h
  | lose reader items rest hlose hheld hwaiting => exact absurd hlose hlossy

end Mailbox

/-! ### One reader among others -/

/-- What a reader has been handed over and what it holds have increasing keys, and what is waiting
and not held comes behind them. -/
structure InOrder (key : Item → ℕ) (taken held waiting : List Item) (bound : ℕ) : Prop where
  increasing : (taken ++ held).Pairwise fun first second ↦ key first < key second
  bounded : ∀ item ∈ taken ++ held, key item ≤ bound
  behind : ∀ item ∈ waiting, item ∈ held ∨ ∀ earlier ∈ taken ++ held, key earlier < key item

namespace InOrder

variable {key : Item → ℕ} {taken held waiting : List Item} {bound : ℕ}

/-- A reader that has been handed over nothing and holds nothing. -/
theorem nil (waiting : List Item) (bound : ℕ) : InOrder key [] [] waiting bound where
  increasing := List.Pairwise.nil
  bounded := fun _ hitem ↦ absurd hitem List.not_mem_nil
  behind := fun _ _ ↦ .inr fun _ hearlier ↦ absurd hearlier List.not_mem_nil

/-- Others remove items and add items above the bound. -/
theorem others (h : InOrder key taken held waiting bound) {left : List Item} {more : ℕ}
    (hbound : bound ≤ more) (hleft : ∀ item ∈ left, item ∈ waiting ∨ bound < key item) :
    InOrder key taken held left more where
  increasing := h.increasing
  bounded := fun item hitem ↦ (h.bounded item hitem).trans hbound
  behind := fun item hitem ↦ by
    rcases hleft item hitem with hold | hnew
    · exact h.behind item hold
    · exact .inr fun earlier hearlier ↦ (h.bounded earlier hearlier).trans_lt hnew

/-- The reader gives up what it holds. -/
theorem release (h : InOrder key taken held waiting bound) :
    InOrder key taken [] waiting bound where
  increasing := by
    rw [List.append_nil]
    exact (List.pairwise_append.mp h.increasing).1
  bounded := fun item hitem ↦ by
    rw [List.append_nil] at hitem
    exact h.bounded item (List.mem_append_left held hitem)
  behind := fun item hitem ↦ by
    rw [List.append_nil]
    right
    intro earlier hearlier
    rcases h.behind item hitem with hheld | hlater
    · exact (List.pairwise_append.mp h.increasing).2.2 earlier hearlier item hheld
    · exact hlater earlier (List.mem_append_left held hearlier)

/-- The reader takes a copy of what is waiting. Assumes: the keys of what is waiting increase and
are bounded. -/
theorem take (h : InOrder key taken [] waiting bound)
    (hincreasing : waiting.Pairwise fun first second ↦ key first < key second)
    (hbounded : ∀ item ∈ waiting, key item ≤ bound) : InOrder key taken waiting waiting bound where
  increasing := by
    have htaken := h.increasing
    rw [List.append_nil] at htaken
    refine List.pairwise_append.mpr ⟨htaken, hincreasing, fun earlier hearlier item hitem ↦ ?_⟩
    rcases h.behind item hitem with hheld | hlater
    · exact absurd hheld List.not_mem_nil
    · exact hlater earlier (List.mem_append_left [] hearlier)
  bounded := fun item hitem ↦ by
    rcases List.mem_append.mp hitem with htaken | hwaiting
    · exact h.bounded item (List.mem_append_left [] htaken)
    · exact hbounded item hwaiting
  behind := fun _ hitem ↦ .inl hitem

/-- The reader removes what it holds and is handed it over. -/
theorem deliver (h : InOrder key taken held waiting bound) {left : List Item}
    (hleft : ∀ item ∈ left, item ∈ waiting ∧ item ∉ held) :
    InOrder key (taken ++ held) [] left bound where
  increasing := by
    rw [List.append_nil]
    exact h.increasing
  bounded := fun item hitem ↦ by
    rw [List.append_nil] at hitem
    exact h.bounded item hitem
  behind := fun item hitem ↦ by
    rw [List.append_nil]
    obtain ⟨hwaiting, hnot⟩ := hleft item hitem
    exact .inr ((h.behind item hwaiting).resolve_left hnot)

end InOrder

end MessageU.Library
