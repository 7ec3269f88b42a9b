import Mathlib.Data.List.DropRight
import MessageU.Library.Text

/-!
# The file myport.info.txt

`get_server_port` of `get_port.py`. The text of the file is a list of code points. What Python knows
of them (`Unicode`: the encoding of the locale, the decimal digits and the blanks of the Unicode
database) is a parameter, of which only the ASCII part is fixed.

`int` takes more than a number: blanks around it, a sign, single underscores between its digits, and
the digits of every script. `PortFile` is the grammar that comes out of this, and
`get_server_port_exact` says that the server listens on the port of a file of the grammar, and on
the default port, after a warning, for every other file.
-/

set_option autoImplicit false
set_option relaxedAutoImplicit false

namespace MessageU.Server

open Library

/-! ### Text -/

/-- What Python knows of text. -/
structure Unicode where
  /-- Decoding with the encoding of the locale, nothing for a `UnicodeDecodeError`. -/
  decode : Bytes → Option (List ℕ)
  /-- The value of a decimal digit. -/
  digit : ℕ → Option ℕ
  /-- `str.isspace`. -/
  space : ℕ → Bool
  decode_ascii : ∀ {data : Bytes}, (∀ byte ∈ data, byte < 128) →
    decode data = some (data.map UInt8.toNat)
  digit_ascii : ∀ {code : ℕ}, code < 128 →
    digit code = if 48 ≤ code ∧ code ≤ 57 then some (code - 48) else none
  space_ascii : ∀ {code : ℕ}, code < 128 →
    (space code = true ↔ code = 32 ∨ (9 ≤ code ∧ code ≤ 13) ∨ (28 ≤ code ∧ code ≤ 31))
  digit_plain : ∀ {code value : ℕ}, digit code = some value → space code = false

/-- The newlines that reading in text mode gives: `\r\n` and `\r` are read as `\n`. -/
def universalNewlines : List ℕ → List ℕ
  | [] => []
  | code :: rest =>
    if code = 13 then
      if rest.head? = some 10 then universalNewlines rest else 10 :: universalNewlines rest
    else code :: universalNewlines rest

/-- `f.readlines()`, with the newlines at the ends of the lines. -/
def readlines : List ℕ → List (List ℕ)
  | [] => []
  | code :: rest =>
    if code = 10 then [code] :: readlines rest
    else
      match readlines rest with
      | [] => [[code]]
      | line :: lines => (code :: line) :: lines

/-- `str.strip`. -/
def strip (space : ℕ → Bool) (text : List ℕ) : List ℕ :=
  (text.dropWhile space).rdropWhile space

/-- The digits of a literal, between which single underscores may stand. The flag says that a digit
has just been read. -/
def intDigits (digit : ℕ → Option ℕ) : (afterDigit : Bool) → List ℕ → Option (List ℕ)
  | afterDigit, [] => if afterDigit then some [] else none
  | afterDigit, code :: rest =>
    match digit code with
    | some value => (intDigits digit true rest).map (value :: ·)
    | none => if code = 95 ∧ afterDigit then intDigits digit false rest else none

/-- `int(text)` for a text without blanks around it, nothing for a `ValueError`. There is one as
well when the digits are more than `sys.get_int_max_str_digits()`, if this limit is set. -/
def int (unicode : Unicode) (maxDigits : Option ℕ) (text : List ℕ) : Option ℤ :=
  let negative := text.head? = some 45
  let unsigned := if negative ∨ text.head? = some 43 then text.tail else text
  (intDigits unicode.digit false unsigned).bind fun digits ↦
    let value : ℕ := digits.foldl (fun value digit ↦ 10 * value + digit) 0
    if maxDigits.any (· < digits.length) then none
    else if negative then some (-(value : ℤ)) else some (value : ℤ)

/-! ### The port -/

/-- `DEFAULT_PORT`. -/
@[simp] abbrev defaultPort : ℕ := 1357

/-- What `open` gives. -/
inductive Opened
  | content (data : Bytes)
  /-- `FileNotFoundError`. -/
  | notFound
  /-- Another exception of `open` or of reading. -/
  | failed

/-- The port that is returned, and the warning that is printed. -/
structure PortChoice where
  port : ℕ
  warning : Option String
  deriving DecidableEq

/-- `get_server_port`. -/
def getServerPort (unicode : Unicode) (maxDigits : Option ℕ) : Opened → PortChoice
  | .notFound => ⟨defaultPort, some "Warning: myport.info.txt not found."⟩
  | .failed => ⟨defaultPort, some "Warning: error reading myport.info.txt."⟩
  | .content data =>
    match unicode.decode data with
    | none => ⟨defaultPort, some "Warning: error reading myport.info.txt."⟩
    | some text =>
      match readlines (universalNewlines text) with
      | [line] =>
        match int unicode maxDigits (strip unicode.space line) with
        | none => ⟨defaultPort, some "Warning: error reading myport.info.txt."⟩
        | some port =>
          if 0 < port ∧ port < 2 ^ 16 then ⟨port.toNat, none⟩
          else ⟨defaultPort, some "Warning: invalid port in myport.info.txt."⟩
      | _ => ⟨defaultPort, some "Warning: myport.info.txt contains more than 1 line."⟩

/-! ### The grammar -/

/-- Digits, between which single underscores may stand, and their values. -/
inductive Literal (digit : ℕ → Option ℕ) : List ℕ → List ℕ → Prop
  | last {code value : ℕ} (hdigit : digit code = some value) : Literal digit [code] [value]
  | next {code value : ℕ} {rest values : List ℕ} (hdigit : digit code = some value)
    (hrest : Literal digit rest values) : Literal digit (code :: rest) (value :: values)
  | underscore {code value : ℕ} {rest values : List ℕ} (hdigit : digit code = some value)
    (hrest : Literal digit rest values) : Literal digit (code :: 95 :: rest) (value :: values)

/-- What may stand at the end of the line. -/
def LineEnd (ending : List ℕ) : Prop :=
  ending = [] ∨ ending = [10] ∨ ending = [13] ∨ ending = [13, 10]

/-- Blanks of a line. -/
def Blanks (unicode : Unicode) (text : List ℕ) : Prop :=
  ∀ code ∈ text, unicode.space code = true ∧ code ≠ 10 ∧ code ≠ 13

/-- One line with a number between 1 and 65535: blanks, a plus sign or none, the literal, blanks. -/
def PortFile (unicode : Unicode) (maxDigits : Option ℕ) (data : Bytes) (port : ℕ) : Prop :=
  ∃ before sign literal after ending digits, unicode.decode data =
      some (before ++ (sign ++ (literal ++ (after ++ ending)))) ∧
    (Blanks unicode before ∧ (sign = [] ∨ sign = [43]) ∧ Literal unicode.digit literal digits ∧
      Blanks unicode after ∧ LineEnd ending) ∧
    ¬maxDigits.any (· < digits.length) ∧ Nat.ofDigits 10 digits.reverse = port ∧ 1 ≤ port ∧
      port ≤ 65535

/-! ### Lines -/

section Lines

variable {text body ending line : List ℕ}

/-- A text without newlines is read as it is. -/
theorem universalNewlines_append (hbody : ∀ code ∈ body, code ≠ 10 ∧ code ≠ 13) (rest : List ℕ) :
    universalNewlines (body ++ rest) = body ++ universalNewlines rest := by
  induction body with
  | nil => rfl
  | cons code body ih =>
    obtain ⟨hcode, hrest⟩ := List.forall_mem_cons.mp hbody
    rw [List.cons_append, universalNewlines, if_neg hcode.2, ih hrest]
    rfl

/-- The end of a line is read as one newline. -/
theorem universalNewlines_end {code : ℕ} (hcode : code = 10 ∨ code = 13) (rest : List ℕ) :
    ∃ ending behind, LineEnd ending ∧ code :: rest = ending ++ behind ∧
      universalNewlines (code :: rest) = 10 :: universalNewlines behind := by
  rcases hcode with rfl | rfl
  · exact ⟨[10], rest, .inr (.inl rfl), rfl, rfl⟩
  · by_cases hnewline : rest.head? = some 10
    · obtain ⟨behind, rfl⟩ : ∃ behind, rest = 10 :: behind := by
        cases rest with
        | nil => cases hnewline
        | cons next behind => exact ⟨behind, congrArg (· :: behind) (Option.some.inj hnewline)⟩
      exact ⟨[13, 10], behind, .inr (.inr (.inr rfl)), rfl, rfl⟩
    · refine ⟨[13], rest, .inr (.inr (.inl rfl)), rfl, ?_⟩
      rw [universalNewlines, if_pos rfl, if_neg hnewline]

theorem universalNewlines_eq_nil (h : universalNewlines text = []) : text = [] := by
  cases text with
  | nil => rfl
  | cons code rest =>
    by_cases hcode : code = 10 ∨ code = 13
    · obtain ⟨_, _, -, -, hend⟩ := universalNewlines_end hcode rest
      rw [hend] at h
      cases h
    · rw [universalNewlines, if_neg fun hreturn ↦ hcode (.inr hreturn)] at h
      cases h

theorem readlines_eq_nil (h : readlines text = []) : text = [] := by
  cases text with
  | nil => rfl
  | cons code rest =>
    rw [readlines] at h
    split_ifs at h
    split at h <;> cases h

/-- The first line ends in its newline. -/
theorem readlines_newline (hbody : 10 ∉ body) (rest : List ℕ) :
    readlines (body ++ 10 :: rest) = (body ++ [10]) :: readlines rest := by
  induction body with
  | nil => rfl
  | cons code body ih =>
    have hcode : code ≠ 10 := (List.ne_of_not_mem_cons hbody).symm
    rw [List.cons_append, readlines, if_neg hcode, ih (List.not_mem_of_not_mem_cons hbody)]
    rfl

/-- The last line may lack it. -/
theorem readlines_last (hbody : 10 ∉ body) (hnonempty : body ≠ []) : readlines body = [body] := by
  induction body with
  | nil => exact absurd rfl hnonempty
  | cons code body ih =>
    have hcode : code ≠ 10 := (List.ne_of_not_mem_cons hbody).symm
    rw [readlines, if_neg hcode]
    cases body with
    | nil => rfl
    | cons next body =>
      rw [ih (List.not_mem_of_not_mem_cons hbody) (List.cons_ne_nil _ _)]

/-- A line, with or without its end, is one line. -/
theorem readlines_line (hbody : ∀ code ∈ body, code ≠ 10 ∧ code ≠ 13) (hnonempty : body ≠ [])
    (hending : LineEnd ending) : readlines (universalNewlines (body ++ ending)) = [body] ∨
      readlines (universalNewlines (body ++ ending)) = [body ++ [10]] := by
  have hplain : 10 ∉ body := fun h ↦ (hbody 10 h).1 rfl
  rw [universalNewlines_append hbody]
  rcases hending with rfl | rfl | rfl | rfl
  · rw [universalNewlines, List.append_nil]
    exact .inl (readlines_last hplain hnonempty)
  all_goals exact .inr (readlines_newline hplain [])

/-- The part of a text in front of its first newline. -/
theorem exists_body (text : List ℕ) : ∃ body rest, text = body ++ rest ∧
    (∀ code ∈ body, code ≠ 10 ∧ code ≠ 13) ∧
      (rest = [] ∨ ∃ code behind, rest = code :: behind ∧ (code = 10 ∨ code = 13)) := by
  induction text with
  | nil => exact ⟨[], [], rfl, fun _ h ↦ absurd h List.not_mem_nil, .inl rfl⟩
  | cons code text ih =>
    by_cases hcode : code = 10 ∨ code = 13
    · exact ⟨[], _, rfl, fun _ h ↦ absurd h List.not_mem_nil, .inr ⟨code, text, rfl, hcode⟩⟩
    · obtain ⟨body, rest, rfl, hbody, hrest⟩ := ih
      exact ⟨code :: body, rest, rfl, List.forall_mem_cons.mpr ⟨not_or.mp hcode, hbody⟩, hrest⟩

/-- A text with one line is a line, with or without its end. -/
theorem exists_line (h : readlines (universalNewlines text) = [line]) :
    ∃ body ending, text = body ++ ending ∧ (∀ code ∈ body, code ≠ 10 ∧ code ≠ 13) ∧ LineEnd ending ∧
      (line = body ∨ line = body ++ [10]) := by
  obtain ⟨body, rest, rfl, hbody, hrest⟩ := exists_body text
  have hplain : 10 ∉ body := fun hnewline ↦ (hbody 10 hnewline).1 rfl
  rw [universalNewlines_append hbody] at h
  rcases hrest with rfl | ⟨code, behind, rfl, hcode⟩
  · have hnonempty : body ≠ [] := by
      rintro rfl
      cases h
    rw [universalNewlines, List.append_nil, readlines_last hplain hnonempty] at h
    exact ⟨body, [], rfl, hbody, .inl rfl, .inl (List.singleton_injective h).symm⟩
  · obtain ⟨ending, last, hending, hsplit, hread⟩ := universalNewlines_end hcode behind
    rw [hread, readlines_newline hplain, List.cons.injEq] at h
    obtain rfl := universalNewlines_eq_nil (readlines_eq_nil h.2)
    rw [List.append_nil] at hsplit
    exact ⟨body, ending, congrArg (body ++ ·) hsplit, hbody, hending, .inr h.1.symm⟩

end Lines

/-! ### Numbers -/

section Numbers

variable {unicode : Unicode} {digit : ℕ → Option ℕ} {space : ℕ → Bool}
  {text values before middle after : List ℕ}

/-- Blanks around a text without blanks are stripped. -/
theorem strip_append (hbefore : ∀ code ∈ before, space code = true)
    (hafter : ∀ code ∈ after, space code = true) (hmiddle : ∀ code ∈ middle, space code = false)
    (hnonempty : middle ≠ []) : strip space (before ++ (middle ++ after)) = middle := by
  have hkept : ∀ (kept rest : List ℕ), (∀ code ∈ kept, space code = false) → kept ≠ [] →
      (kept ++ rest).dropWhile space = kept ++ rest := by
    intro kept rest hkept hne
    obtain ⟨code, kept, rfl⟩ := List.exists_cons_of_ne_nil hne
    exact List.dropWhile_cons_of_neg (by simp [hkept code List.mem_cons_self])
  rw [strip, List.dropWhile_append_of_pos hbefore, hkept middle after hmiddle hnonempty,
    List.rdropWhile, List.reverse_append, List.dropWhile_append_of_pos (by simpa using hafter),
    ← List.append_nil middle.reverse,
    hkept _ [] (by simpa using hmiddle) (by simpa using hnonempty),
    List.append_nil, List.reverse_reverse]

/-- A text is what is left of it between blanks. -/
theorem exists_strip (space : ℕ → Bool) (text : List ℕ) :
    ∃ before after, text = before ++ (strip space text ++ after) ∧
      (∀ code ∈ before, space code = true) ∧ ∀ code ∈ after, space code = true := by
  refine ⟨text.takeWhile space, (text.dropWhile space).rtakeWhile space, ?_,
    fun code ↦ List.mem_takeWhile_imp, fun code ↦ List.mem_rtakeWhile_imp⟩
  rw [strip, List.rdropWhile_append_rtakeWhile, List.takeWhile_append_dropWhile]

/-- The newline of a line is stripped. -/
theorem strip_concat {code : ℕ} (hcode : space code = true) (text : List ℕ) :
    strip space (text ++ [code]) = strip space text := by
  rw [strip, strip, List.dropWhile_append]
  split_ifs with hempty
  · rw [List.isEmpty_iff.mp hempty, List.dropWhile_cons_of_pos hcode, List.dropWhile_nil]
  · exact List.rdropWhile_concat_pos _ _ _ hcode

/-- A literal is read, behind a digit and elsewhere. -/
theorem Literal.intDigits_eq (h : Literal digit text values) (hunderscore : digit 95 = none)
    (afterDigit : Bool) : intDigits digit afterDigit text = some values := by
  induction h generalizing afterDigit with
  | last hdigit => simp [intDigits, hdigit]
  | next hdigit _ ih => simp [intDigits, hdigit, ih]
  | underscore hdigit _ ih => simp [intDigits, hdigit, hunderscore, ih]

/-- What is read is a literal; behind a digit it may be nothing, or begin with an underscore. -/
theorem literal_of_intDigits {afterDigit : Bool}
    (h : intDigits digit afterDigit text = some values) :
    Literal digit text values ∨ afterDigit = true ∧
      (text = [] ∧ values = [] ∨ ∃ rest, text = 95 :: rest ∧ Literal digit rest values) := by
  induction text generalizing values afterDigit with
  | nil =>
    rw [intDigits] at h
    split_ifs at h with hafter
    exact .inr ⟨hafter, .inl ⟨rfl, (Option.some.inj h).symm⟩⟩
  | cons code rest ih =>
    rw [intDigits] at h
    cases hdigit : digit code with
    | some value =>
      simp only [hdigit] at h
      obtain ⟨others, hothers, rfl⟩ := Option.map_eq_some_iff.mp h
      left
      rcases ih hothers with hrest | ⟨-, ⟨rfl, rfl⟩ | ⟨behind, rfl, hbehind⟩⟩
      · exact .next hdigit hrest
      · exact .last hdigit
      · exact .underscore hdigit hbehind
    | none =>
      simp only [hdigit] at h
      split_ifs at h with hunderscore
      obtain ⟨rfl, hafter⟩ := hunderscore
      rcases ih h with hrest | ⟨hflag, -⟩
      · exact .inr ⟨hafter, .inr ⟨rest, rfl, hrest⟩⟩
      · cases hflag

/-- The characters of a literal are digits and underscores. -/
theorem Literal.mem (h : Literal digit text values) {code : ℕ} (hcode : code ∈ text) :
    code = 95 ∨ ∃ value, digit code = some value := by
  induction h with
  | last hdigit => exact .inr ⟨_, List.mem_singleton.mp hcode ▸ hdigit⟩
  | next hdigit _ ih =>
    rcases List.mem_cons.mp hcode with rfl | hrest
    · exact .inr ⟨_, hdigit⟩
    · exact ih hrest
  | underscore hdigit _ ih =>
    rcases List.mem_cons.mp hcode with rfl | hrest
    · exact .inr ⟨_, hdigit⟩
    · exact (List.mem_cons.mp hrest).imp_right ih |>.elim .inl id

theorem Literal.nonempty (h : Literal digit text values) : text ≠ [] := by
  cases h <;> exact List.cons_ne_nil _ _

theorem Unicode.digit_underscore (unicode : Unicode) : unicode.digit 95 = none := by
  rw [unicode.digit_ascii (by decide)]
  rfl

/-- A character of a literal is no sign and no blank. -/
theorem Literal.plain (h : Literal unicode.digit text values) {code : ℕ} (hcode : code ∈ text) :
    unicode.space code = false ∧ code ≠ 43 ∧ code ≠ 45 := by
  rcases h.mem hcode with rfl | ⟨value, hvalue⟩
  · refine ⟨Bool.eq_false_iff.mpr fun hspace ↦ ?_, by decide, by decide⟩
    have hblank := (unicode.space_ascii (by decide)).mp hspace
    omega
  · refine ⟨unicode.digit_plain hvalue, ?_, ?_⟩
    all_goals
      rintro rfl
      rw [unicode.digit_ascii (by decide)] at hvalue
      cases hvalue

/-- The first digit counts most. -/
theorem foldl_eq_ofDigits (digits : List ℕ) :
    digits.foldl (fun value digit ↦ 10 * value + digit) 0 = Nat.ofDigits 10 digits.reverse := by
  induction digits using List.reverseRecOn with
  | nil => rfl
  | append_singleton digits digit ih =>
    rw [List.foldl_append, List.reverse_append, List.reverse_singleton, List.singleton_append,
      Nat.ofDigits_cons, ← ih]
    exact Nat.add_comm _ _

variable {maxDigits : Option ℕ} {sign literal digits : List ℕ}

/-- `int` on a literal with a plus sign or none. -/
theorem int_literal (hsign : sign = [] ∨ sign = [43]) (h : Literal unicode.digit literal digits)
    (hlimit : ¬maxDigits.any (· < digits.length)) :
    int unicode maxDigits (sign ++ literal) = some ((Nat.ofDigits 10 digits.reverse : ℕ) : ℤ) := by
  have hread := h.intDigits_eq unicode.digit_underscore false
  rcases hsign with rfl | rfl
  · obtain ⟨code, rest, rfl⟩ := List.exists_cons_of_ne_nil h.nonempty
    obtain ⟨-, hplus, hminus⟩ := h.plain List.mem_cons_self
    simp [int, hplus, hminus, hread, hlimit, foldl_eq_ofDigits]
  · simp [int, hread, hlimit, foldl_eq_ofDigits]

/-- A text that is a positive number for `int`. -/
theorem exists_literal {port : ℤ} (h : int unicode maxDigits text = some port) (hport : 0 < port) :
    ∃ sign literal digits, text = sign ++ literal ∧ (sign = [] ∨ sign = [43]) ∧
      Literal unicode.digit literal digits ∧ ¬maxDigits.any (· < digits.length) ∧
        port = (Nat.ofDigits 10 digits.reverse : ℕ) := by
  rw [int] at h
  obtain ⟨digits, hread, hvalue⟩ := Option.bind_eq_some_iff.mp h
  have hliteral := (literal_of_intDigits hread).resolve_right fun hflag ↦ Bool.false_ne_true hflag.1
  dsimp only at hvalue
  split_ifs at hvalue with hlimit hnegative
  · have hnonpositive : port ≤ 0 := by
      rw [← Option.some.inj hvalue]
      omega
    omega
  · rw [foldl_eq_ofDigits] at hvalue
    have hsame := (Option.some.inj hvalue).symm
    by_cases hplus : text.head? = some 43
    · obtain ⟨rest, rfl⟩ : ∃ rest, text = 43 :: rest := List.head?_eq_some_iff.mp hplus
      rw [if_pos (.inr hplus)] at hliteral
      exact ⟨[43], rest, digits, rfl, .inr rfl, hliteral, hlimit, hsame⟩
    · rw [if_neg (not_or.mpr ⟨hnegative, hplus⟩)] at hliteral
      exact ⟨[], text, digits, rfl, .inl rfl, hliteral, hlimit, hsame⟩

end Numbers

/-! ### The choice of the port -/

section Choice

variable {unicode : Unicode} {maxDigits : Option ℕ} {data : Bytes} {port : ℕ}

theorem Unicode.space_newline (unicode : Unicode) : unicode.space 10 = true :=
  (unicode.space_ascii (by decide)).mpr (by decide)

/-- A blank is no part of a number. -/
theorem Literal.sign_plain {sign literal digits : List ℕ} (hsign : sign = [] ∨ sign = [43])
    (h : Literal unicode.digit literal digits) :
    ∀ code ∈ sign ++ literal, unicode.space code = false := by
  intro code hcode
  rcases List.mem_append.mp hcode with hmem | hmem
  · rcases hsign with rfl | rfl
    · exact absurd hmem List.not_mem_nil
    · rw [List.mem_singleton.mp hmem]
      refine Bool.eq_false_iff.mpr fun hspace ↦ ?_
      have hblank := (unicode.space_ascii (by decide)).mp hspace
      omega
  · exact (h.plain hmem).1

/-- What is no blank is no newline. -/
theorem Unicode.ne_newline (unicode : Unicode) {code : ℕ} (h : unicode.space code = false) :
    code ≠ 10 ∧ code ≠ 13 := by
  constructor
  all_goals
    rintro rfl
    rw [(unicode.space_ascii (by decide)).mpr (by decide)] at h
    cases h

/-- The port of a file of the grammar. -/
theorem getServerPort_of_file (h : PortFile unicode maxDigits data port) :
    getServerPort unicode maxDigits (.content data) = ⟨port, none⟩ := by
  obtain ⟨before, sign, literal, after, ending, digits, hdecoded,
    ⟨hbefore, hsign, hliteral, hafter, hending⟩, hlimit, hvalue, hrange⟩ := h
  have hmiddle := Literal.sign_plain hsign hliteral
  have hnonempty : sign ++ literal ≠ [] := List.append_ne_nil_of_right_ne_nil _ hliteral.nonempty
  let line := before ++ ((sign ++ literal) ++ after)
  have hline : ∀ code ∈ line, code ≠ 10 ∧ code ≠ 13 := by
    intro code hcode
    rcases List.mem_append.mp hcode with hmem | hmem
    · exact (hbefore code hmem).2
    rcases List.mem_append.mp hmem with hmem | hmem
    · exact unicode.ne_newline (hmiddle code hmem)
    · exact (hafter code hmem).2
  have hstripped : strip unicode.space line = sign ++ literal :=
    strip_append (fun code hcode ↦ (hbefore code hcode).1) (fun code hcode ↦ (hafter code hcode).1)
      hmiddle hnonempty
  have htext : before ++ (sign ++ (literal ++ (after ++ ending))) = line ++ ending := by
    simp only [line, List.append_assoc]
  have hline_nonempty : line ≠ [] := by
    simp [line, hliteral.nonempty]
  have hread : ∀ read, readlines (universalNewlines (line ++ ending)) = [read] →
      strip unicode.space read = sign ++ literal →
        getServerPort unicode maxDigits (.content data) = ⟨port, none⟩ := by
    intro read hlines hnumber
    simp only [getServerPort, hdecoded, htext, hlines, hnumber,
      int_literal hsign hliteral hlimit, hvalue]
    rw [if_pos (by omega), Int.toNat_natCast]
  rcases readlines_line hline hline_nonempty hending with hlines | hlines
  · exact hread line hlines hstripped
  · exact hread _ hlines ((strip_concat unicode.space_newline line).trans hstripped)

/-- A text of one line with a number is of the grammar. -/
theorem file_of_int {text line : List ℕ} {value : ℤ} (hdecoded : unicode.decode data = some text)
    (hlines : readlines (universalNewlines text) = [line])
    (hint : int unicode maxDigits (strip unicode.space line) = some value)
    (hrange : 0 < value ∧ value < 2 ^ 16) : PortFile unicode maxDigits data value.toNat := by
  obtain ⟨sign, literal, digits, hnumber, hsign, hliteral, hlimit, hvalue⟩ :=
    exists_literal hint hrange.1
  obtain ⟨body, ending, rfl, hbody, hending, hline⟩ := exists_line hlines
  have hstripped : strip unicode.space body = sign ++ literal := by
    rcases hline with rfl | rfl
    · exact hnumber
    · rwa [strip_concat unicode.space_newline] at hnumber
  obtain ⟨before, after, hparts, hbefore, hafter⟩ := exists_strip unicode.space body
  have hblanks : ∀ part : List ℕ, part ⊆ body → (∀ code ∈ part, unicode.space code = true) →
      Blanks unicode part :=
    fun part hpart hspaces code hcode ↦ ⟨hspaces code hcode, hbody code (hpart hcode)⟩
  refine ⟨before, sign, literal, after, ending, digits, ?_,
    ⟨hblanks before ?_ hbefore, hsign, hliteral,
    hblanks after ?_ hafter, hending⟩, hlimit, by omega, by omega, by omega⟩
  · rw [hdecoded, hparts, hstripped]
    simp only [List.append_assoc]
  · rw [hparts]
    exact List.subset_append_left _ _
  · rw [hparts]
    exact fun code hcode ↦ List.mem_append_right _ (List.mem_append_right _ hcode)

/-- A port without a warning is the one of the file. -/
theorem file_of_getServerPort {opened : Opened}
    (h : getServerPort unicode maxDigits opened = ⟨port, none⟩) :
    ∃ data, opened = .content data ∧ PortFile unicode maxDigits data port := by
  cases opened with
  | notFound => cases h
  | failed => cases h
  | content data =>
    refine ⟨data, rfl, ?_⟩
    cases hdecoded : unicode.decode data with
    | none =>
      simp only [getServerPort, hdecoded] at h
      cases h
    | some text =>
      simp only [getServerPort, hdecoded] at h
      rcases hlines : readlines (universalNewlines text) with _ | ⟨line, _ | ⟨second, rest⟩⟩
      · rw [hlines] at h
        cases h
      · simp only [hlines] at h
        cases hint : int unicode maxDigits (strip unicode.space line) with
        | none =>
          rw [hint] at h
          cases h
        | some value =>
          simp only [hint] at h
          split_ifs at h with hrange
          · rw [← (PortChoice.mk.inj h).1]
            exact file_of_int hdecoded hlines hint hrange
          · cases h
      · rw [hlines] at h
        cases h

/-- The port is in range, and the default one after a warning. -/
theorem getServerPort_cases (unicode : Unicode) (maxDigits : Option ℕ) (opened : Opened) :
    (∃ port, getServerPort unicode maxDigits opened = ⟨port, none⟩) ∨
      ∃ warning, getServerPort unicode maxDigits opened = ⟨defaultPort, some warning⟩ := by
  cases opened with
  | notFound => exact .inr ⟨_, rfl⟩
  | failed => exact .inr ⟨_, rfl⟩
  | content data =>
    rw [getServerPort]
    split
    · exact .inr ⟨_, rfl⟩
    · split
      · split
        · exact .inr ⟨_, rfl⟩
        · split_ifs
          · exact .inl ⟨_, rfl⟩
          · exact .inr ⟨_, rfl⟩
      · exact .inr ⟨_, rfl⟩

/-- The server takes its port from exactly the files of the grammar. For every other file, and if
there is none, it prints a warning and takes the default port; in any case the port is one that can
be bound. -/
theorem get_server_port_exact (unicode : Unicode) (maxDigits : Option ℕ) (opened : Opened) :
    let choice := getServerPort unicode maxDigits opened
    (∀ port, choice = ⟨port, none⟩ ↔
        ∃ data, opened = .content data ∧ PortFile unicode maxDigits data port) ∧
      (choice.warning ≠ none → choice.port = defaultPort) ∧ 1 ≤ choice.port ∧
        choice.port ≤ 65535 := by
  intro choice
  have hexact : ∀ port, choice = ⟨port, none⟩ ↔
      ∃ data, opened = .content data ∧ PortFile unicode maxDigits data port := by
    refine fun port ↦ ⟨file_of_getServerPort, ?_⟩
    rintro ⟨data, hopened, hfile⟩
    show getServerPort unicode maxDigits opened = _
    rw [hopened]
    exact getServerPort_of_file hfile
  refine ⟨hexact, ?_⟩
  rcases getServerPort_cases unicode maxDigits opened with ⟨port, hchoice⟩ | ⟨warning, hchoice⟩
  · obtain ⟨data, -, -, -, -, -, -, -, -, -, -, -, hrange⟩ := (hexact port).mp hchoice
    rw [show choice = ⟨port, none⟩ from hchoice]
    exact ⟨fun hwarning ↦ absurd rfl hwarning, hrange⟩
  · rw [show choice = ⟨defaultPort, some warning⟩ from hchoice]
    exact ⟨fun _ ↦ rfl, (by decide : 1 ≤ defaultPort), (by decide : defaultPort ≤ 65535)⟩

end Choice

/-- Text of which nothing is known beyond ASCII. -/
def asciiOnly : Unicode where
  decode data := if data.all (· < 128) then some (data.map UInt8.toNat) else none
  digit code := if 48 ≤ code ∧ code ≤ 57 then some (code - 48) else none
  space code := decide (code = 32 ∨ (9 ≤ code ∧ code ≤ 13) ∨ (28 ≤ code ∧ code ≤ 31))
  decode_ascii hdata := if_pos (by simpa using hdata)
  digit_ascii _ := rfl
  space_ascii _ := decide_eq_true_iff
  digit_plain hdigit := by
    split_ifs at hdigit with hrange
    exact decide_eq_false (by omega)

/-- The line ` +13_58`. -/
example : getServerPort asciiOnly (some 4300) (.content [32, 43, 49, 51, 95, 53, 56, 13, 10]) =
    ⟨1358, none⟩ := by decide +kernel

end MessageU.Server
