import Mathlib.Algebra.Order.Ring.Nat
import Mathlib.Tactic.Ring
import Mathlib.Tactic.Common

/-!
# Byte strings, slices and little-endian numbers

`Bytes` is a list of octets. `littleEndian width value` is the encoding of a number in a fixed
number of bytes, least significant first, and `fromLittleEndian` reads any byte string back as a
number. `fromLittleEndian_littleEndian` is the round trip below `256 ^ width` and
`fromLittleEndian_lt` bounds what a field of a given width can hold. `slice data offset size` is
the field of `size` bytes at `offset`; the lemmas about it compute the fields of a concatenation.
-/

set_option autoImplicit false
set_option relaxedAutoImplicit false

namespace MessageU.Library

/-- A string of octets. -/
abbrev Bytes := List UInt8

instance : LawfulBEq Bytes := inferInstance

/-! ### Little-endian numbers -/

/-- The low `width` bytes of a number, least significant first. -/
def littleEndian : (width : ℕ) → (value : ℕ) → Bytes
  | 0, _ => []
  | width + 1, value => UInt8.ofNat value :: littleEndian width (value / 256)

/-- The number whose bytes, least significant first, are given. -/
def fromLittleEndian : Bytes → ℕ
  | [] => 0
  | byte :: rest => byte.toNat + 256 * fromLittleEndian rest

@[simp] theorem littleEndian_length (width value : ℕ) :
    (littleEndian width value).length = width := by
  induction width generalizing value with
  | zero => rfl
  | succ width ih => rw [littleEndian, List.length_cons, ih]

/-- Reading an encoding back gives the number modulo what the width can hold. -/
theorem fromLittleEndian_littleEndian_mod (width value : ℕ) :
    fromLittleEndian (littleEndian width value) = value % 256 ^ width := by
  induction width generalizing value with
  | zero => rw [littleEndian, fromLittleEndian, pow_zero, Nat.mod_one]
  | succ width ih =>
    have hbyte : (UInt8.ofNat value).toNat = value % 256 := UInt8.toNat_ofNat'
    rw [littleEndian, fromLittleEndian, ih, hbyte, pow_succ', Nat.mod_mul]

/-- A number that fits the width is read back unchanged. -/
theorem fromLittleEndian_littleEndian {width value : ℕ} (hfits : value < 256 ^ width) :
    fromLittleEndian (littleEndian width value) = value := by
  rw [fromLittleEndian_littleEndian_mod, Nat.mod_eq_of_lt hfits]

/-- A field of `n` bytes holds a number below `256 ^ n`. -/
theorem fromLittleEndian_lt (data : Bytes) : fromLittleEndian data < 256 ^ data.length := by
  induction data with
  | nil => simp [fromLittleEndian]
  | cons byte rest ih =>
    have hbyte : byte.toNat < 256 := byte.toNat_lt
    rw [fromLittleEndian, List.length_cons, pow_succ]
    omega

/-- Encoding what was read from bytes gives the bytes. -/
theorem littleEndian_fromLittleEndian (data : Bytes) :
    littleEndian data.length (fromLittleEndian data) = data := by
  induction data with
  | nil => rfl
  | cons byte rest ih =>
    have hbyte : byte.toNat < 256 := byte.toNat_lt
    have hhead : UInt8.ofNat (byte.toNat + 256 * fromLittleEndian rest) = byte := by
      apply UInt8.toNat_inj.mp
      rw [UInt8.toNat_ofNat', Nat.add_mul_mod_self_left, Nat.mod_eq_of_lt hbyte]
    have htail : (byte.toNat + 256 * fromLittleEndian rest) / 256 = fromLittleEndian rest := by
      omega
    rw [fromLittleEndian, List.length_cons, littleEndian, hhead, htail, ih]

/-! ### Slices -/

/-- The field of `size` bytes that starts at `offset`, cut short where the data end. -/
def slice {α : Type} (data : List α) (offset size : ℕ) : List α :=
  (data.drop offset).take size

variable {α : Type}

theorem slice_length_le (data : List α) (offset size : ℕ) :
    (slice data offset size).length ≤ size := by
  rw [slice, List.length_take]
  exact min_le_left _ _

/-- A slice inside the data has its full length. -/
theorem slice_length {data : List α} {offset size : ℕ} (hinside : offset + size ≤ data.length) :
    (slice data offset size).length = size := by
  rw [slice, List.length_take, List.length_drop]
  omega

/-- A slice is followed by what stands behind it. -/
theorem slice_append_drop (data : List α) (offset size : ℕ) :
    slice data offset size ++ data.drop (offset + size) = data.drop offset := by
  rw [slice, ← List.drop_drop, List.take_append_drop]

/-- A slice that starts where a known beginning ends is a slice of the rest. -/
theorem slice_append_right {front : List α} {offset : ℕ} (hfront : front.length = offset)
    (rest : List α) (size : ℕ) : slice (front ++ rest) offset size = rest.take size := by
  rw [slice, ← hfront, List.drop_left]

/-- The field between a known beginning and the rest. -/
theorem slice_append_append {front field : List α} {offset size : ℕ}
    (hfront : front.length = offset) (hfield : field.length = size) (rest : List α) :
    slice (front ++ (field ++ rest)) offset size = field := by
  rw [slice_append_right hfront, ← hfield, List.take_left]

end MessageU.Library
