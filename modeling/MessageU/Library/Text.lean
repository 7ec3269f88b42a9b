import Mathlib.Data.List.Induction
import Mathlib.Data.List.TakeWhile
import Mathlib.Data.Nat.Digits.Defs
import MessageU.Library.LittleEndian

/-!
# Text as bytes

What a program that reads text files takes from its library: lines, character classes and numbers.

`cut` takes the next line off a text. A text is a sequence of lines each of which ends in a
separator, where the last one may also end with the text, so a separator at the end is not the begin
of another line. `cut_append` and `cut_last` read the two kinds of lines and `eq_of_cut` says that
there are no others.

The character classes are those of the C locale on octets. `decimal` is the number that a sequence
of decimal digits stands for, as it is computed from the left; `decimal_eq_ofDigits` says what it
is.
-/

set_option autoImplicit false
set_option relaxedAutoImplicit false

namespace MessageU.Library

/-! ### Lines -/

section Cut

variable {α : Type} [DecidableEq α] {separator : α} {line text rest : List α}

/-- The next line of a text and what is behind it, nothing at the end of the text. -/
def cut (separator : α) (text : List α) : Option (List α × List α) :=
  if text = [] then none
  else some (text.takeWhile (· ≠ separator), (text.dropWhile (· ≠ separator)).tail)

@[simp] theorem cut_nil : cut separator ([] : List α) = none :=
  rfl

/-- A line that ends in a separator. -/
theorem cut_append (hline : separator ∉ line) (rest : List α) :
    cut separator (line ++ separator :: rest) = some (line, rest) := by
  have hall : ∀ symbol ∈ line, decide (symbol ≠ separator) = true := by
    intro symbol hsymbol
    exact decide_eq_true fun heq ↦ hline (heq ▸ hsymbol)
  rw [cut, if_neg (by simp), List.takeWhile_append_of_pos hall, List.dropWhile_append_of_pos hall,
    List.takeWhile_cons_of_neg (by simp), List.dropWhile_cons_of_neg (by simp), List.append_nil,
    List.tail_cons]

/-- A line that ends with the text. -/
theorem cut_last (hline : separator ∉ line) (hnonempty : line ≠ []) :
    cut separator line = some (line, []) := by
  have hall : ∀ symbol ∈ line, decide (symbol ≠ separator) = true := by
    intro symbol hsymbol
    exact decide_eq_true fun heq ↦ hline (heq ▸ hsymbol)
  rw [cut, if_neg hnonempty, List.takeWhile_eq_self_iff.mpr hall,
    List.dropWhile_eq_nil_iff.mpr hall,
    List.tail_nil]

/-- A line has no separator in it, and it ends in one or with the text. -/
theorem eq_of_cut (h : cut separator text = some (line, rest)) :
    separator ∉ line ∧
      (text = line ++ separator :: rest ∨ text = line ∧ line ≠ [] ∧ rest = []) := by
  unfold cut at h
  split_ifs at h with hempty
  obtain ⟨rfl, rfl⟩ := Prod.mk.inj (Option.some.inj h)
  have hline : separator ∉ text.takeWhile (· ≠ separator) := by
    intro hmem
    have hdiffers := List.mem_takeWhile_imp hmem
    exact of_decide_eq_true hdiffers rfl
  refine ⟨hline, ?_⟩
  have hparts := List.takeWhile_append_dropWhile (p := fun symbol ↦ decide (symbol ≠ separator))
    (l := text)
  cases hbehind : text.dropWhile (· ≠ separator) with
  | nil =>
    rw [hbehind, List.append_nil] at hparts
    exact .inr ⟨hparts.symm, by rwa [hparts], rfl⟩
  | cons symbol rest =>
    have hsymbol : symbol = separator := by
      have hhead := List.head_dropWhile_not (fun symbol : α ↦ decide (symbol ≠ separator))
        (by rw [hbehind]; simp)
      simp only [hbehind, List.head_cons] at hhead
      simpa using hhead
    rw [hbehind, hsymbol] at hparts
    exact .inl hparts.symm

end Cut

/-! ### Characters -/

/-- `std::isspace`. -/
def isspace (c : UInt8) : Bool :=
  c = 32 ∨ 9 ≤ c ∧ c ≤ 13

/-- `std::isdigit`. -/
def isdigit (c : UInt8) : Bool :=
  48 ≤ c ∧ c ≤ 57

/-- `std::isxdigit`. -/
def isxdigit (c : UInt8) : Bool :=
  isdigit c ∨ 65 ≤ c ∧ c ≤ 70 ∨ 97 ≤ c ∧ c ≤ 102

/-- `std::tolower`. -/
def tolower (c : UInt8) : UInt8 :=
  if 65 ≤ c ∧ c ≤ 90 then c + 32 else c

/-! ### Numbers -/

/-- The value of a decimal digit. -/
def digitValue (c : UInt8) : ℕ :=
  c.toNat - 48

/-- The number that a sequence of decimal digits stands for. -/
def decimal (digits : Bytes) : ℕ :=
  digits.foldl (fun value c ↦ 10 * value + digitValue c) 0

/-- The last digit is the one of least value. -/
theorem decimal_eq_ofDigits (digits : Bytes) :
    decimal digits = Nat.ofDigits 10 (digits.reverse.map digitValue) := by
  induction digits using List.reverseRecOn with
  | nil => rfl
  | append_singleton digits c ih =>
    rw [decimal, List.foldl_append, List.reverse_append, List.reverse_singleton,
      List.singleton_append,
      List.map_cons, Nat.ofDigits_cons, ← ih]
    exact Nat.add_comm _ _

end MessageU.Library
