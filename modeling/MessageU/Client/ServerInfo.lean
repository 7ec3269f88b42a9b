import MessageU.Client.FileManager

/-!
# The file server.info.txt

`loadServerInfo` and `validateAndLoadServerInfo` of `FileManager.cpp`. The line `a.b.c.d:p` is taken
apart with `find` and `substr`, and its numbers are read with `std::stoi`, all of which are modelled
with their exceptions. The loop that splits the address is given one round more than the address has
characters.

A round of the loop takes the part up to the next dot, so the loop checks the parts of
`List.splitOn` one by one and counts the dots between them (`partsLoop_eq`). It stops within its
rounds, `substr` never gets a position behind the end, and what `std::stoi` throws is caught. This
gives the value of the whole function on every file (`validate_eq`), and from it that the function
accepts the grammar `ServerInfoFile` and nothing else (`server_info_exact`).
-/

set_option autoImplicit false
set_option relaxedAutoImplicit false

namespace MessageU.Client

open Library

/-! ### Strings -/

/-- `s.find(c, pos)`: nothing stands for `npos`. -/
def find (s : Bytes) (c : UInt8) (pos : ℕ) : Option ℕ :=
  ((s.drop pos).findIdx? (· = c)).map (pos + ·)

/-- `s.substr(pos, count)`. -/
def substr (s : Bytes) (pos count : ℕ) : Except CppError Bytes :=
  if s.length < pos then .error (.logicError "invalid string position")
  else .ok ((s.drop pos).take count)

/-- `std::stoi(s)`: blanks, a sign and the longest sequence of digits. -/
def stoi (s : Bytes) : Except CppError ℤ :=
  let body := s.dropWhile isspace
  let negative := body.head? = some 45
  let unsigned := if negative ∨ body.head? = some 43 then body.tail else body
  let digits := unsigned.takeWhile isdigit
  let value : ℤ := if negative then -(decimal digits : ℤ) else decimal digits
  if digits = [] then .error (.logicError "invalid stoi argument")
  else if value < -2 ^ 31 ∨ 2 ^ 31 ≤ value then .error (.logicError "stoi argument out of range")
  else .ok value

/-! ### Reading the file -/

/-- The loop of `validateAndLoadServerInfo` that splits the address, and the dots that it has
counted when it breaks, nothing when it returns false. The count is an `int`; it has the room for
every line of less than 2^32 characters, and its overflow is not modelled. -/
def partsLoop (addressPart : Bytes) : (rounds start dots : ℕ) → Except CppError (Option ℕ)
  | 0, _, _ => .error .outOfFuel
  | rounds + 1, start, dots => do
    let stop := find addressPart 46 start
    -- `npos - start` is no less than what is left of the address.
    let part ← substr addressPart start (stop.getD addressPart.length - start)
    if part = [] ∨ 3 < part.length then pure none
    else if !part.all isdigit then pure none
    else
      match stoi part with
      | .error _ => pure none
      | .ok value =>
        if value < 0 ∨ 255 < value then pure none
        else
          match stop with
          | none => pure (some dots)
          | some stop => partsLoop addressPart rounds (stop + 1) (dots + 1)

/-- What `validateAndLoadServerInfo` leaves: whether it returns true, the address and the port. -/
structure ServerInfoLoad where
  accepted : Bool
  address : Bytes
  port : ℕ
  deriving DecidableEq

/-- `validateAndLoadServerInfo`. -/
def validateAndLoadServerInfo (file address : Bytes) (port : ℕ) : Except CppError ServerInfoLoad :=
  let refused : ServerInfoLoad := ⟨false, address, port⟩
  match getline file with
  | none => pure refused
  | some (line, rest) =>
    if rest ≠ [] then pure refused
    else
      match find line 58 0 with
      | none => pure refused
      | some colonPos =>
        if (find line 58 (colonPos + 1)).isSome then pure refused
        else do
          let addressPart ← substr line 0 colonPos
          let portPart ← substr line (colonPos + 1) line.length
          if addressPart = [] ∨ portPart = [] then pure refused
          else if !portPart.all isdigit then pure refused
          else
            match stoi portPart with
            | .error _ => pure refused
            | .ok parsedPort =>
              if parsedPort < 1 ∨ 65535 < parsedPort then pure refused
              else do
                let counted ← partsLoop addressPart (addressPart.length + 1) 0 0
                match counted with
                | none => pure refused
                | some dots =>
                  if dots ≠ 3 then pure refused
                  else pure ⟨true, addressPart, parsedPort.toNat % 2 ^ 16⟩

/-- `loadServerInfo`: the address and the port, and what is printed. -/
def loadServerInfo (file : Option Bytes) : Except CppError (Bytes × ℕ × List Output) :=
  match file with
  | none => pure ([], 0, [.text "server.info.txt file was not found.\n"])
  | some file => do
    let load ← validateAndLoadServerInfo file [] 0
    pure (load.address, load.port,
      if load.accepted then [] else [.text "server.info.txt is invalid.\n"])

/-! ### The grammar -/

/-- The number that a sequence of digits stands for, the last of which counts ones. -/
def numeral (digits : Bytes) : ℕ :=
  Nat.ofDigits 10 (digits.reverse.map digitValue)

/-- One to three digits for a number of at most 255. -/
structure Octet (text : Bytes) : Prop where
  length : 1 ≤ text.length ∧ text.length ≤ 3
  digits : ∀ c ∈ text, 48 ≤ c ∧ c ≤ 57
  value : numeral text ≤ 255

/-- Four octets with dots between them. -/
def DottedQuad (address : Bytes) : Prop :=
  ∃ a b c d, (Octet a ∧ Octet b ∧ Octet c ∧ Octet d) ∧
    address = a ++ 46 :: (b ++ 46 :: (c ++ 46 :: d))

/-- One or more digits for a number between 1 and 65535. -/
structure PortText (text : Bytes) (port : ℕ) : Prop where
  nonempty : text ≠ []
  digits : ∀ c ∈ text, 48 ≤ c ∧ c ≤ 57
  value : numeral text = port
  range : 1 ≤ port ∧ port ≤ 65535

/-- One line `a.b.c.d:p`, which may end in a newline. -/
def ServerInfoFile (file address : Bytes) (port : ℕ) : Prop :=
  DottedQuad address ∧ ∃ text, PortText text port ∧
    (file = address ++ 58 :: text ∨ file = address ++ 58 :: text ++ [10])

/-! ### Finding and cutting -/

section Strings

variable {s before behind part : Bytes} {c : UInt8} {pos : ℕ}

/-- A text without a character. -/
theorem findIdx?_eq_none (h : c ∉ s) : s.findIdx? (· = c) = none := by
  refine List.findIdx?_eq_none_iff.mpr fun x hx ↦ decide_eq_false ?_
  rintro rfl
  exact h hx

/-- The first occurrence behind a position. -/
theorem find_eq_some (hs : s.drop pos = before ++ c :: behind) (hbefore : c ∉ before) :
    find s c pos = some (pos + before.length) := by
  have hindex : (before ++ c :: behind).findIdx? (· = c) = some before.length := by
    rw [List.findIdx?_append, findIdx?_eq_none hbefore, List.findIdx?_cons, decide_eq_true rfl]
    simp
  rw [find, hs, hindex]
  rfl

/-- There is no occurrence behind a position. -/
theorem find_eq_none (hs : c ∉ s.drop pos) : find s c pos = none := by
  rw [find, findIdx?_eq_none hs]
  rfl

/-- Cutting at a position inside the string. -/
theorem substr_eq (hpos : pos ≤ s.length) (count : ℕ) :
    substr s pos count = .ok ((s.drop pos).take count) := by
  rw [substr, if_neg (not_lt.mpr hpos)]

/-- A character that is a digit. -/
theorem isdigit_iff : isdigit c = true ↔ 48 ≤ c ∧ c ≤ 57 := by
  simp [isdigit]

theorem all_isdigit_iff : s.all isdigit = true ↔ ∀ c ∈ s, 48 ≤ c ∧ c ≤ 57 := by
  simp only [List.all_eq_true, isdigit_iff]

/-- A digit is no blank and no sign. -/
theorem digit_plain (h : isdigit c = true) : isspace c = false ∧ c ≠ 45 ∧ c ≠ 43 := by
  have hall : ∀ code < 256, isdigit (UInt8.ofNat code) = true →
      isspace (UInt8.ofNat code) = false ∧ UInt8.ofNat code ≠ 45 ∧ UInt8.ofNat code ≠ 43 := by
    decide +kernel
  have hcode := hall c.toNat c.toNat_lt
  rw [UInt8.ofNat_toNat] at hcode
  exact hcode h

/-- `std::stoi` on digits: their number, or an exception when it does not fit into an `int`. -/
theorem stoi_digits (hnonempty : s ≠ []) (hdigits : s.all isdigit = true) :
    stoi s = if (2 : ℤ) ^ 31 ≤ decimal s then .error (.logicError "stoi argument out of range")
      else .ok (decimal s : ℤ) := by
  cases s with
  | nil => exact absurd rfl hnonempty
  | cons c rest =>
    have hdigit := List.all_eq_true.mp hdigits c List.mem_cons_self
    obtain ⟨hblank, hminus, hplus⟩ := digit_plain hdigit
    have hbody : (c :: rest).dropWhile isspace = c :: rest :=
      List.dropWhile_cons_of_neg (by simp [hblank])
    have hall : (c :: rest).takeWhile isdigit = c :: rest :=
      List.takeWhile_eq_self_iff.mpr (List.all_eq_true.mp hdigits)
    have hpositive : ¬(decimal (c :: rest) : ℤ) < -2 ^ 31 := by omega
    simp only [stoi, hbody, List.head?_cons, Option.some.injEq, hminus, hplus, false_or, if_false,
      hall, hpositive, reduceCtorEq]

end Strings

/-! ### The loop over the parts -/

/-- The check that the loop makes of a part. -/
def isOctet (part : Bytes) : Bool :=
  1 ≤ part.length ∧ part.length ≤ 3 ∧ part.all isdigit = true ∧ decimal part ≤ 255

theorem isOctet_iff {part : Bytes} : isOctet part = true ↔ Octet part := by
  rw [isOctet, decide_eq_true_iff, decimal_eq_ofDigits, all_isdigit_iff]
  constructor
  · rintro ⟨hleast, hmost, hdigits, hvalue⟩
    exact ⟨⟨hleast, hmost⟩, hdigits, hvalue⟩
  · rintro ⟨⟨hleast, hmost⟩, hdigits, hvalue⟩
    exact ⟨hleast, hmost, hdigits, hvalue⟩

/-- What the loop does with a part, and what it does next if the part is an octet. -/
theorem checked_eq (part : Bytes) (next : Except CppError (Option ℕ)) :
    (if part = [] ∨ 3 < part.length then pure none
      else if !part.all isdigit then pure none
      else
        match stoi part with
        | .error _ => pure none
        | .ok value => if value < 0 ∨ 255 < value then pure none else next) =
      if isOctet part = true then next else .ok none := by
  by_cases hlength : part = [] ∨ 3 < part.length
  · have hrefused : ¬isOctet part = true := by
      rw [isOctet, decide_eq_true_iff]
      rintro ⟨hleast, hmost, -⟩
      rcases hlength with rfl | hlong
      · cases hleast
      · omega
    rw [if_pos hlength, if_neg hrefused]
    rfl
  rw [if_neg hlength]
  rw [not_or] at hlength
  by_cases hdigits : part.all isdigit = true
  · have hleast : 1 ≤ part.length := List.length_pos_iff.mpr hlength.1
    have hmost : part.length ≤ 3 := not_lt.mp hlength.2
    rw [if_neg (by simp [hdigits]), stoi_digits hlength.1 hdigits]
    by_cases hvalue : decimal part ≤ 255
    · have haccepted : isOctet part = true := by
        rw [isOctet, decide_eq_true_iff]
        exact ⟨hleast, hmost, hdigits, hvalue⟩
      rw [if_neg (by omega), if_pos haccepted]
      exact if_neg (by omega)
    · have hrefused : ¬isOctet part = true := by
        rw [isOctet, decide_eq_true_iff]
        exact fun h ↦ hvalue h.2.2.2
      rw [if_neg hrefused]
      split_ifs
      · rfl
      · exact if_pos (.inr (by omega))
  · have hrefused : ¬isOctet part = true := by
      rw [isOctet, decide_eq_true_iff]
      exact fun h ↦ hdigits h.2.2.1
    rw [if_pos (by simpa using hdigits), if_neg hrefused]
    rfl

section Parts

variable {address part rest : Bytes} {rounds start dots : ℕ}

/-- The round of the last part. -/
theorem partsLoop_last (hstart : start ≤ address.length) (hpart : 46 ∉ address.drop start) :
    partsLoop address (rounds + 1) start dots =
      if isOctet (address.drop start) = true then .ok (some dots) else .ok none := by
  have hcut : substr address start (address.length - start) = .ok (address.drop start) := by
    rw [substr_eq hstart, List.take_of_length_le (by rw [List.length_drop])]
  rw [partsLoop, find_eq_none hpart]
  simp only [Option.getD_none, hcut]
  exact checked_eq (address.drop start) (.ok (some dots))

/-- The round of a part with a dot behind it. -/
theorem partsLoop_part (hparts : address.drop start = part ++ 46 :: rest) (hpart : 46 ∉ part) :
    partsLoop address (rounds + 1) start dots =
      if isOctet part = true then partsLoop address rounds (start + part.length + 1) (dots + 1)
      else .ok none := by
  have hstart : start ≤ address.length := by
    by_contra hbehind
    rw [List.drop_eq_nil_of_le (by omega)] at hparts
    simp at hparts
  have hcut : substr address start (start + part.length - start) = .ok part := by
    rw [substr_eq hstart, hparts, Nat.add_sub_cancel_left, List.take_left]
  rw [partsLoop, find_eq_some hparts hpart]
  simp only [Option.getD_some, hcut]
  exact checked_eq part (partsLoop address rounds (start + part.length + 1) (dots + 1))

/-- The loop checks the parts of the address and counts the dots between them. Assumes: it begins in
the address, with more rounds than there are characters left. -/
theorem partsLoop_eq (hstart : start ≤ address.length) (hrounds : address.length < start + rounds) :
    partsLoop address rounds start dots =
      .ok (if ((address.drop start).splitOn 46).all isOctet = true then
          some (dots + ((address.drop start).splitOn 46).length - 1) else none) := by
  induction rounds generalizing start dots with
  | zero => omega
  | succ rounds ih =>
    by_cases hdot : 46 ∈ address.drop start
    · obtain ⟨part, rest, hparts, hpart⟩ := List.eq_append_cons_of_mem hdot
      have hsplit : (address.drop start).splitOn 46 = part :: rest.splitOn 46 := by
        rw [hparts, List.splitOn_append_cons_self_of_not_mem hpart]
      have hlength : address.length - start = part.length + (rest.length + 1) := by
        rw [← List.length_drop, hparts, List.length_append, List.length_cons]
      have hrest : address.drop (start + part.length + 1) = rest := by
        rw [Nat.add_assoc, ← List.drop_drop, hparts, ← List.drop_drop, List.drop_left,
          List.drop_succ_cons, List.drop_zero]
      have hnext : partsLoop address rounds (start + part.length + 1) (dots + 1) = _ :=
        ih (by omega) (by omega)
      rw [hrest] at hnext
      have hcount : 0 < (rest.splitOn 46).length :=
        List.length_pos_iff.mpr (List.splitOn_ne_nil 46 rest)
      rw [partsLoop_part hparts hpart, hnext, hsplit, List.all_cons, List.length_cons]
      by_cases hoctet : isOctet part = true
      · rw [if_pos hoctet, hoctet, Bool.true_and]
        congr 2
        congr 1
        omega
      · rw [if_neg hoctet, if_neg (by simp [hoctet])]
    · rw [partsLoop_last hstart hdot, List.splitOn_eq_singleton hdot]
      by_cases hoctet : isOctet (address.drop start) = true
      · simp [hoctet]
      · simp [hoctet]

end Parts

/-! ### The files that are accepted -/

/-- No octet has a character in it that is not a digit. -/
theorem Octet.notMem {part : Bytes} (h : Octet part) {c : UInt8} (hc : ¬(48 ≤ c ∧ c ≤ 57)) :
    c ∉ part :=
  fun hmem ↦ hc (h.digits c hmem)

/-- Four octets are what the loop accepts with three dots. -/
theorem dottedQuad_iff {address : Bytes} :
    DottedQuad address ↔
      (address.splitOn 46).all isOctet = true ∧ (address.splitOn 46).length = 4 := by
  constructor
  · rintro ⟨a, b, c, d, ⟨ha, hb, hc, hd⟩, rfl⟩
    have hdot {part : Bytes} (h : Octet part) : 46 ∉ part := h.notMem (by decide)
    rw [List.splitOn_append_cons_self_of_not_mem (hdot ha),
      List.splitOn_append_cons_self_of_not_mem (hdot hb),
      List.splitOn_append_cons_self_of_not_mem (hdot hc), List.splitOn_eq_singleton (hdot hd)]
    simp [isOctet_iff.mpr ha, isOctet_iff.mpr hb, isOctet_iff.mpr hc, isOctet_iff.mpr hd]
  · rintro ⟨hoctets, hcount⟩
    have haddress : [46].intercalate (address.splitOn 46) = address := List.intercalate_splitOn 46
    obtain ⟨a, b, c, d, hparts⟩ : ∃ a b c d, address.splitOn 46 = [a, b, c, d] := by
      match address.splitOn 46, hcount with
      | [a, b, c, d], _ => exact ⟨a, b, c, d, rfl⟩
    rw [hparts] at haddress hoctets
    simp only [List.all_cons, List.all_nil, Bool.and_true, Bool.and_eq_true, isOctet_iff] at hoctets
    exact ⟨a, b, c, d, hoctets, by simpa [List.intercalate] using haddress.symm⟩

/-- An address is not empty, and there is no colon in it. -/
theorem DottedQuad.plain {address : Bytes} (h : DottedQuad address) :
    address ≠ [] ∧ 58 ∉ address ∧ 10 ∉ address := by
  obtain ⟨a, b, c, d, ⟨ha, hb, hc, hd⟩, rfl⟩ := h
  refine ⟨by simp, ?_, ?_⟩
  · simp [ha.notMem, hb.notMem, hc.notMem, hd.notMem]
  · simp [ha.notMem, hb.notMem, hc.notMem, hd.notMem]

/-- A port is what the function asks of the text behind the colon. -/
theorem portText_iff {text : Bytes} :
    PortText text (decimal text) ↔
      text ≠ [] ∧ text.all isdigit = true ∧ 1 ≤ decimal text ∧ decimal text ≤ 65535 := by
  rw [all_isdigit_iff]
  constructor
  · rintro ⟨hnonempty, hdigits, -, hrange⟩
    exact ⟨hnonempty, hdigits, hrange⟩
  · rintro ⟨hnonempty, hdigits, hrange⟩
    exact ⟨hnonempty, hdigits, (decimal_eq_ofDigits text).symm, hrange⟩

section Line

variable {file addressPart portPart : Bytes}

/-- What the function computes of the line `a:p`. -/
theorem validate_line (hline : getline file = some (addressPart ++ 58 :: portPart, []))
    (haddress : 58 ∉ addressPart) (hport : 58 ∉ portPart) (address : Bytes) (port : ℕ) :
    validateAndLoadServerInfo file address port =
      if addressPart = [] ∨ portPart = [] then .ok ⟨false, address, port⟩
      else if !portPart.all isdigit then .ok ⟨false, address, port⟩
      else
        match stoi portPart with
        | .error _ => .ok ⟨false, address, port⟩
        | .ok parsedPort =>
          if parsedPort < 1 ∨ 65535 < parsedPort then .ok ⟨false, address, port⟩
          else if (addressPart.splitOn 46).all isOctet = true ∧
            (addressPart.splitOn 46).length = 4 then
            .ok ⟨true, addressPart, parsedPort.toNat % 2 ^ 16⟩
          else .ok ⟨false, address, port⟩ := by
  let line := addressPart ++ 58 :: portPart
  have hbehind : line.drop (addressPart.length + 1) = portPart := by
    rw [← List.drop_drop, List.drop_left, List.drop_succ_cons, List.drop_zero]
  have hsize : addressPart.length + 1 ≤ line.length := by simp [line]
  have hfirst : find line 58 0 = some addressPart.length := by
    rw [find_eq_some (List.drop_zero ..) haddress, Nat.zero_add]
  have hsecond : find line 58 (addressPart.length + 1) = none := find_eq_none (by rwa [hbehind])
  have hbefore : substr line 0 addressPart.length = .ok addressPart := by
    rw [substr_eq (Nat.zero_le _), List.drop_zero, List.take_left]
  have hafter : substr line (addressPart.length + 1) line.length = .ok portPart := by
    rw [substr_eq hsize, hbehind, List.take_of_length_le (by rw [← hbehind]; simp)]
  have hparts : partsLoop addressPart (addressPart.length + 1) 0 0 = _ :=
    partsLoop_eq (Nat.zero_le _) (by omega)
  have hcount : 0 < (addressPart.splitOn 46).length :=
    List.length_pos_iff.mpr (List.splitOn_ne_nil 46 addressPart)
  simp only [validateAndLoadServerInfo, hline]
  change (if _ then _ else match find line 58 0 with | none => _ | some colonPos => _) = _
  rw [hfirst, if_neg (by simp)]
  dsimp only
  change (if (find line 58 (addressPart.length + 1)).isSome = true then _ else _) = _
  rw [hsecond, if_neg (by simp)]
  change (substr line 0 addressPart.length >>= fun first ↦
    substr line (addressPart.length + 1) line.length >>= fun second ↦ _) = _
  rw [hbefore, hafter]
  change (if addressPart = [] ∨ portPart = [] then _ else _) = _
  by_cases hempty : addressPart = [] ∨ portPart = []
  · rw [if_pos hempty, if_pos hempty]
    rfl
  rw [if_neg hempty, if_neg hempty]
  by_cases hdigits : (!portPart.all isdigit) = true
  · rw [if_pos hdigits, if_pos hdigits]
    rfl
  rw [if_neg hdigits, if_neg hdigits]
  cases stoi portPart with
  | error exception => rfl
  | ok parsedPort =>
    dsimp only
    by_cases hrange : parsedPort < 1 ∨ 65535 < parsedPort
    · rw [if_pos hrange, if_pos hrange]
      rfl
    rw [if_neg hrange, if_neg hrange, hparts, List.drop_zero]
    by_cases hoctets : (addressPart.splitOn 46).all isOctet = true
    · rw [if_pos hoctets]
      by_cases hfour : (addressPart.splitOn 46).length = 4
      · rw [if_pos ⟨hoctets, hfour⟩, hfour]
        rfl
      · rw [if_neg fun h ↦ hfour h.2]
        exact if_pos (by omega)
    · rw [if_neg hoctets, if_neg fun h ↦ hoctets h.1]
      rfl

/-- A line with a right address and a right port is accepted. -/
theorem validate_accepts (hline : getline file = some (addressPart ++ 58 :: portPart, []))
    (haddress : DottedQuad addressPart) {value : ℕ} (hport : PortText portPart value)
    (address : Bytes) (port : ℕ) :
    validateAndLoadServerInfo file address port = .ok ⟨true, addressPart, value⟩ := by
  have hvalue : decimal portPart = value := (decimal_eq_ofDigits portPart).trans hport.value
  subst hvalue
  obtain ⟨hnonempty, hdigits, hleast, hmost⟩ := portText_iff.mp hport
  have hcolon : 58 ∉ portPart := fun hmem ↦ absurd (hport.digits 58 hmem) (by decide)
  have hsmall : ¬(2 : ℤ) ^ 31 ≤ decimal portPart := by omega
  rw [validate_line hline haddress.plain.2.1 hcolon, if_neg (by simp [haddress.plain.1, hnonempty]),
    if_neg (by simp [hdigits]), stoi_digits hnonempty hdigits, if_neg hsmall]
  dsimp only
  rw [if_neg (by omega), if_pos (dottedQuad_iff.mp haddress), Int.toNat_natCast,
    Nat.mod_eq_of_lt (by omega)]

/-- Every other line with one colon is refused. -/
theorem validate_line_cases (hline : getline file = some (addressPart ++ 58 :: portPart, []))
    (haddress : 58 ∉ addressPart) (hport : 58 ∉ portPart) (address : Bytes) (port : ℕ) :
    (DottedQuad addressPart ∧ PortText portPart (decimal portPart)) ∨
      validateAndLoadServerInfo file address port = .ok ⟨false, address, port⟩ := by
  rw [validate_line hline haddress hport]
  by_cases hempty : addressPart = [] ∨ portPart = []
  · exact .inr (if_pos hempty)
  rw [if_neg hempty]
  rw [not_or] at hempty
  by_cases hdigits : portPart.all isdigit = true
  · rw [if_neg (by simp [hdigits]), stoi_digits hempty.2 hdigits]
    by_cases hlarge : (2 : ℤ) ^ 31 ≤ decimal portPart
    · rw [if_pos hlarge]
      exact .inr rfl
    rw [if_neg hlarge]
    dsimp only
    by_cases hrange : (decimal portPart : ℤ) < 1 ∨ 65535 < (decimal portPart : ℤ)
    · exact .inr (if_pos hrange)
    rw [if_neg hrange]
    by_cases hquad : DottedQuad addressPart
    · exact .inl ⟨hquad, portText_iff.mpr ⟨hempty.2, hdigits, by omega, by omega⟩⟩
    · exact .inr (if_neg fun h ↦ hquad (dottedQuad_iff.mpr h))
  · exact .inr (if_pos (by simpa using hdigits))

end Line

/-- A line with two colons is refused. -/
theorem validate_two_colons {file first second last : Bytes}
    (hline : getline file = some (first ++ 58 :: (second ++ 58 :: last), [])) (hfirst : 58 ∉ first)
    (hsecond : 58 ∉ second) (address : Bytes) (port : ℕ) :
    validateAndLoadServerInfo file address port = .ok ⟨false, address, port⟩ := by
  let line := first ++ 58 :: (second ++ 58 :: last)
  have hbehind : line.drop (first.length + 1) = second ++ 58 :: last := by
    rw [← List.drop_drop, List.drop_left, List.drop_succ_cons, List.drop_zero]
  have hcolon : find line 58 0 = some first.length := by
    rw [find_eq_some (List.drop_zero ..) hfirst, Nat.zero_add]
  simp only [validateAndLoadServerInfo, hline]
  change (if _ then _ else match find line 58 0 with | none => _ | some colonPos => _) = _
  rw [hcolon, if_neg (by simp)]
  dsimp only
  change (if (find line 58 (first.length + 1)).isSome = true then _ else _) = _
  rw [find_eq_some hbehind hsecond, Option.isSome_some, if_pos rfl]
  rfl

/-- The line of a file. -/
theorem getline_of_file {file address : Bytes} {port : ℕ}
    (hfile : ServerInfoFile file address port) :
    ∃ text, PortText text port ∧ getline file = some (address ++ 58 :: text, []) := by
  obtain ⟨haddress, text, hport, hfile⟩ := hfile
  have hnewline : 10 ∉ address ++ 58 :: text := by
    have htext : 10 ∉ text := fun hmem ↦ absurd (hport.digits 10 hmem) (by decide)
    simp [haddress.plain.2.2, htext]
  refine ⟨text, hport, ?_⟩
  rcases hfile with rfl | rfl
  · exact cut_last hnewline (by simp)
  · exact cut_append hnewline []

/-- A text is a file of the grammar, or it is refused and the address and the port are left. -/
theorem validate_cases (file address : Bytes) (port : ℕ) :
    (∃ found value, ServerInfoFile file found value) ∨
      validateAndLoadServerInfo file address port = .ok ⟨false, address, port⟩ := by
  cases hline : getline file with
  | none =>
    right
    simp only [validateAndLoadServerInfo, hline]
    rfl
  | some found =>
    obtain ⟨line, rest⟩ := found
    by_cases hrest : rest = []
    · subst hrest
      by_cases hcolon : 58 ∈ line
      · obtain ⟨addressPart, portPart, rfl, haddress⟩ := List.eq_append_cons_of_mem hcolon
        by_cases hsecond : 58 ∈ portPart
        · obtain ⟨middle, last, rfl, hmiddle⟩ := List.eq_append_cons_of_mem hsecond
          exact .inr (validate_two_colons hline haddress hmiddle address port)
        · rcases validate_line_cases hline haddress hsecond address port with ⟨hquad, hport⟩ |
            hrefused
          · left
            refine ⟨addressPart, _, hquad, portPart, hport, ?_⟩
            rcases (eq_of_cut hline).2 with hfile | ⟨hfile, -⟩
            · exact .inr hfile
            · exact .inl hfile
          · exact .inr hrefused
      · right
        have hnone : find line 58 0 = none := find_eq_none hcolon
        simp only [validateAndLoadServerInfo, hline, hnone]
        rfl
    · right
      simp only [validateAndLoadServerInfo, hline]
      exact if_pos hrest

/-- The function accepts the files of the grammar and no others. It puts the address before the
colon and the number behind it into its arguments, and leaves them when it refuses. It returns for
every file: no exception leaves it, and its loop stops. -/
theorem server_info_exact (file address : Bytes) (port : ℕ) :
    ∃ load, validateAndLoadServerInfo file address port = .ok load ∧
      (load.accepted = true ↔ ∃ found value, ServerInfoFile file found value) ∧
      (load.accepted = true → ServerInfoFile file load.address load.port) ∧
      (load.accepted = false → load.address = address ∧ load.port = port) := by
  by_cases hfile : ∃ found value, ServerInfoFile file found value
  · obtain ⟨found, value, hfound⟩ := hfile
    obtain ⟨text, hport, hline⟩ := getline_of_file hfound
    refine ⟨⟨true, found, value⟩, validate_accepts hline hfound.1 hport address port, ?_, ?_, ?_⟩
    · exact ⟨fun _ ↦ ⟨found, value, hfound⟩, fun _ ↦ rfl⟩
    · exact fun _ ↦ hfound
    · exact fun hrefused ↦ absurd hrefused (by simp)
  · have hrefused := (validate_cases file address port).resolve_left hfile
    refine ⟨⟨false, address, port⟩, hrefused, ?_, ?_, ?_⟩
    · exact ⟨fun haccepted ↦ absurd haccepted (by simp), fun h ↦ absurd h hfile⟩
    · exact fun haccepted ↦ absurd haccepted (by simp)
    · exact fun _ ↦ ⟨rfl, rfl⟩

/-- `loadServerInfo` ends in the address and the port of the file, or in none. -/
theorem loadServerInfo_cases (file : Bytes) :
    (∃ address port, ServerInfoFile file address port ∧
        loadServerInfo (some file) = .ok (address, port, [])) ∨
      loadServerInfo (some file) = .ok ([], 0, [.text "server.info.txt is invalid.\n"]) := by
  rcases validate_cases file [] 0 with ⟨address, port, hfile⟩ | hrefused
  · obtain ⟨text, hport, hline⟩ := getline_of_file hfile
    refine .inl ⟨address, port, hfile, ?_⟩
    rw [loadServerInfo, validate_accepts hline hfile.1 hport]
    rfl
  · right
    rw [loadServerInfo, hrefused]
    rfl

end MessageU.Client
