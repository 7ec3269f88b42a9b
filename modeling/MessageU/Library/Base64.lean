import MessageU.Library.LittleEndian

/-!
# Base64

Three octets are written as four symbols of six bits each, the last group padded with `=`.
`toBase64` writes a sequence of octets on one line and `ofBase64` reads it back
(`ofBase64_toBase64`). Every symbol is printable, so no line break gets into a text
(`mem_toBase64`).
-/

set_option autoImplicit false
set_option relaxedAutoImplicit false

namespace MessageU.Library

/-- The symbol for six bits. -/
def symbol (bits : ℕ) : UInt8 :=
  if bits < 26 then UInt8.ofNat (65 + bits)
  else if bits < 52 then UInt8.ofNat (97 + (bits - 26))
  else if bits < 62 then UInt8.ofNat (48 + (bits - 52))
  else if bits = 62 then 43
  else 47

/-- The bits that a symbol stands for. -/
def bitsOf (c : UInt8) : ℕ :=
  if 65 ≤ c ∧ c ≤ 90 then c.toNat - 65
  else if 97 ≤ c ∧ c ≤ 122 then c.toNat - 97 + 26
  else if 48 ≤ c ∧ c ≤ 57 then c.toNat - 48 + 52
  else if c = 43 then 62
  else 63

/-- What fills up the last group. -/
def padding : UInt8 :=
  61

/-- Base64 on one line. -/
def toBase64 : Bytes → Bytes
  | [] => []
  | [a] => [symbol (a.toNat / 4), symbol (a.toNat % 4 * 16), padding, padding]
  | [a, b] =>
    [symbol (a.toNat / 4), symbol (a.toNat % 4 * 16 + b.toNat / 16),
      symbol (b.toNat % 16 * 4), padding]
  | a :: b :: c :: rest =>
    symbol (a.toNat / 4) :: symbol (a.toNat % 4 * 16 + b.toNat / 16) ::
      symbol (b.toNat % 16 * 4 + c.toNat / 64) :: symbol (c.toNat % 64) :: toBase64 rest

/-- The octets that a text stands for. -/
def ofBase64 : Bytes → Bytes
  | w :: x :: y :: z :: rest =>
    let a := UInt8.ofNat (bitsOf w * 4 + bitsOf x / 16)
    let b := UInt8.ofNat (bitsOf x % 16 * 16 + bitsOf y / 4)
    let c := UInt8.ofNat (bitsOf y % 4 * 64 + bitsOf z)
    if y = padding then [a] else if z = padding then [a, b] else a :: b :: c :: ofBase64 rest
  | _ => []

/-- A symbol is read back, it is not the padding, and it is printable. -/
theorem bitsOf_symbol {bits : ℕ} (h : bits < 64) :
    bitsOf (symbol bits) = bits ∧ symbol bits ≠ padding ∧ 32 ≤ symbol bits := by
  revert bits
  decide +kernel

/-- An octet that is put together again. -/
theorem ofNat_eq {value : ℕ} (byte : UInt8) (h : value = byte.toNat) :
    UInt8.ofNat value = byte := by
  rw [h, UInt8.ofNat_toNat]

/-- What is written is read back. -/
theorem ofBase64_toBase64 (octets : Bytes) : ofBase64 (toBase64 octets) = octets := by
  fun_induction toBase64 octets with
  | case1 => rfl
  | case2 a =>
    have ha := a.toNat_lt
    have hfirst := bitsOf_symbol (show a.toNat / 4 < 64 by omega)
    have hsecond := bitsOf_symbol (show a.toNat % 4 * 16 < 64 by omega)
    simp only [ofBase64, if_true, hfirst.1, hsecond.1]
    rw [ofNat_eq a (by omega)]
  | case3 a b =>
    have ha := a.toNat_lt
    have hb := b.toNat_lt
    have hfirst := bitsOf_symbol (show a.toNat / 4 < 64 by omega)
    have hsecond := bitsOf_symbol (show a.toNat % 4 * 16 + b.toNat / 16 < 64 by omega)
    have hthird := bitsOf_symbol (show b.toNat % 16 * 4 < 64 by omega)
    simp only [ofBase64, if_true, hfirst.1, hsecond.1, hthird.1]
    rw [if_neg hthird.2.1, ofNat_eq a (by omega), ofNat_eq b (by omega)]
  | case4 a b c rest ih =>
    have ha := a.toNat_lt
    have hb := b.toNat_lt
    have hc := c.toNat_lt
    have hfirst := bitsOf_symbol (show a.toNat / 4 < 64 by omega)
    have hsecond := bitsOf_symbol (show a.toNat % 4 * 16 + b.toNat / 16 < 64 by omega)
    have hthird := bitsOf_symbol (show b.toNat % 16 * 4 + c.toNat / 64 < 64 by omega)
    have hfourth := bitsOf_symbol (show c.toNat % 64 < 64 by omega)
    simp only [ofBase64, hfirst.1, hsecond.1, hthird.1, hfourth.1]
    rw [if_neg hthird.2.1, if_neg hfourth.2.1, ih, ofNat_eq a (by omega),
      ofNat_eq b (by omega), ofNat_eq c (by omega)]

/-- Every octet of a text is printable. -/
theorem mem_toBase64 {octets : Bytes} {c : UInt8} (h : c ∈ toBase64 octets) : 32 ≤ c := by
  have hpadding : (32 : UInt8) ≤ padding := by decide
  have hsymbol {bits : ℕ} (hbits : bits < 64) : 32 ≤ symbol bits := (bitsOf_symbol hbits).2.2
  fun_induction toBase64 octets with
  | case1 => cases h
  | case2 a =>
    have ha := a.toNat_lt
    simp only [List.mem_cons, List.not_mem_nil, or_false] at h
    rcases h with rfl | rfl | rfl | rfl
    · exact hsymbol (by omega)
    · exact hsymbol (by omega)
    · exact hpadding
    · exact hpadding
  | case3 a b =>
    have ha := a.toNat_lt
    have hb := b.toNat_lt
    simp only [List.mem_cons, List.not_mem_nil, or_false] at h
    rcases h with rfl | rfl | rfl | rfl
    · exact hsymbol (by omega)
    · exact hsymbol (by omega)
    · exact hsymbol (by omega)
    · exact hpadding
  | case4 a b d rest ih =>
    have ha := a.toNat_lt
    have hb := b.toNat_lt
    have hd := d.toNat_lt
    simp only [List.mem_cons] at h
    rcases h with rfl | rfl | rfl | rfl | hrest
    · exact hsymbol (by omega)
    · exact hsymbol (by omega)
    · exact hsymbol (by omega)
    · exact hsymbol (by omega)
    · exact ih hrest

end MessageU.Library
