import Mathlib.Tactic.Common

/-!
# Values that are set by the items of a queue

Some items of a queue set a value, the others leave it. Behind items that are taken in order the
value is the one that the last such item has set, or the one from before (`inForce`).

When a queue grows at its end, the value in force behind it changes only by the items that are put
there (`inForce_append`), whatever of its front has been taken in the meantime.

An item can depend on the value in force in front of it (`EachUnder`). What holds of each item of a
queue holds of the part that is taken, and, under the value in force behind that part, of the rest
(`eachUnder_append`).
-/

set_option autoImplicit false
set_option relaxedAutoImplicit false

namespace MessageU.Library

variable {Item Value : Type} {sets : Item → Option Value}

/-- The value in force behind items. -/
def inForce (sets : Item → Option Value) (value : Option Value) (items : List Item) :
    Option Value :=
  items.foldl (fun current item ↦ (sets item).or current) value

@[simp] theorem inForce_nil (value : Option Value) : inForce sets value [] = value :=
  rfl

@[simp] theorem inForce_cons (value : Option Value) (item : Item) (rest : List Item) :
    inForce sets value (item :: rest) = inForce sets ((sets item).or value) rest :=
  rfl

/-- The value in force behind two queues. -/
theorem inForce_append (value : Option Value) (first second : List Item) :
    inForce sets value (first ++ second) = inForce sets (inForce sets value first) second :=
  List.foldl_append

/-- An item behind the others sets the value or leaves it. -/
theorem inForce_concat (value : Option Value) (items : List Item) (item : Item) :
    inForce sets value (items ++ [item]) = (sets item).or (inForce sets value items) :=
  inForce_append value items [item]

/-- Items that set nothing leave the value. -/
theorem inForce_of_none {items : List Item} (h : ∀ item ∈ items, sets item = none)
    (value : Option Value) : inForce sets value items = value := by
  induction items generalizing value with
  | nil => rfl
  | cons item rest ih =>
    rw [inForce_cons, h item List.mem_cons_self, Option.none_or]
    exact ih (fun other hother ↦ h other (List.mem_cons_of_mem _ hother)) value

/-- The value in force is the last one that was set, or the one from before. -/
theorem inForce_eq (value : Option Value) (items : List Item) :
    inForce sets value items = (items.filterMap sets).getLast?.or value := by
  induction items generalizing value with
  | nil => rfl
  | cons item rest ih =>
    rw [inForce_cons, ih, List.filterMap_cons]
    cases sets item with
    | none => rw [Option.none_or]
    | some found => rw [List.getLast?_cons, Option.some_or, Option.or_some, Option.some_or]

/-- Every item of a queue meets a condition on the value that is in force in front of it. -/
def EachUnder (sets : Item → Option Value) (meets : Option Value → Item → Prop) :
    Option Value → List Item → Prop
  | _, [] => True
  | value, item :: rest => meets value item ∧ EachUnder sets meets ((sets item).or value) rest

section EachUnder

variable {meets weaker : Option Value → Item → Prop} {value : Option Value} {items : List Item}

/-- A queue in two parts: the second one is under what the first one leaves in force. -/
theorem eachUnder_append {first second : List Item} :
    EachUnder sets meets value (first ++ second) ↔
      EachUnder sets meets value first ∧
        EachUnder sets meets (inForce sets value first) second := by
  induction first generalizing value with
  | nil => exact ⟨fun h ↦ ⟨trivial, h⟩, fun h ↦ h.2⟩
  | cons item rest ih => simp only [List.cons_append, EachUnder, inForce_cons, ih, and_assoc]

/-- An item meets the condition on the value in force behind the items before it. -/
theorem EachUnder.meets_at {before behind : List Item} {item : Item}
    (h : EachUnder sets meets value (before ++ item :: behind)) :
    meets (inForce sets value before) item :=
  (eachUnder_append.mp h).2.1

theorem EachUnder.of_forall (h : ∀ value, ∀ item ∈ items, meets value item) :
    EachUnder sets meets value items := by
  induction items generalizing value with
  | nil => trivial
  | cons item rest ih =>
    exact ⟨h value item List.mem_cons_self,
      ih fun value other hother ↦ h value other (List.mem_cons_of_mem _ hother)⟩

theorem EachUnder.imp (h : EachUnder sets meets value items)
    (himp : ∀ value, ∀ item ∈ items, meets value item → weaker value item) :
    EachUnder sets weaker value items := by
  induction items generalizing value with
  | nil => trivial
  | cons item rest ih =>
    exact ⟨himp value item List.mem_cons_self h.1,
      ih h.2 fun value other hother ↦ himp value other (List.mem_cons_of_mem _ hother)⟩

end EachUnder

end MessageU.Library
