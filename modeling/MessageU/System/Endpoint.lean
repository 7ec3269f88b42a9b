import MessageU.Client.Startup
import MessageU.Server.PortFile

/-!
# Where client and server meet

The server takes its port from `myport.info.txt` and the client from `server.info.txt`, each with a
parser of its own: `int` of Python, and `std::isdigit` with `std::stoi`. The client's grammar is the
narrower one. `client_meets_server` shows that the two agree on it: a client that has started is
connected to the port on which a server listens whose file holds the digits that stand in the file
of the client.
-/

set_option autoImplicit false
set_option relaxedAutoImplicit false

namespace MessageU.System

open Library Client

section Digits

variable {unicode : Server.Unicode} {text : Bytes}

/-- Digits are a literal. -/
theorem literal_of_digits (hnonempty : text ≠ []) (hdigits : ∀ c ∈ text, 48 ≤ c ∧ c ≤ 57) :
    Server.Literal unicode.digit (text.map UInt8.toNat) (text.map digitValue) := by
  have hdigit : ∀ c ∈ text, unicode.digit c.toNat = some (digitValue c) := by
    intro c hc
    obtain ⟨hlow, hhigh⟩ := hdigits c hc
    have hcode : 48 ≤ c.toNat ∧ c.toNat ≤ 57 := ⟨hlow, hhigh⟩
    rw [unicode.digit_ascii (by omega), if_pos hcode]
    rfl
  clear hdigits
  induction text with
  | nil => exact absurd rfl hnonempty
  | cons c rest ih =>
    obtain ⟨hfirst, hothers⟩ := List.forall_mem_cons.mp hdigit
    cases rest with
    | nil => exact .last hfirst
    | cons next rest => exact .next hfirst (ih (List.cons_ne_nil _ _) hothers)

/-- The port text of the client, with the end of a line or without, is a file of the server. -/
theorem portFile_of_portText {port : ℕ} (h : PortText text port) {maxDigits : Option ℕ}
    (hlimit : ¬maxDigits.any (· < text.length)) {ending : Bytes}
    (hending : Server.LineEnd (ending.map UInt8.toNat)) :
    Server.PortFile unicode maxDigits (text ++ ending) port := by
  have hascii : ∀ byte ∈ text ++ ending, byte < 128 := by
    intro byte hbyte
    show byte.toNat < 128
    rcases List.mem_append.mp hbyte with hmem | hmem
    · have hhigh : byte.toNat ≤ 57 := (h.digits byte hmem).2
      omega
    · have hcode := List.mem_map_of_mem (f := UInt8.toNat) hmem
      rcases hending with hend | hend | hend | hend
      · exact absurd (hend ▸ hcode) List.not_mem_nil
      all_goals
        rw [hend] at hcode
        simp at hcode
        omega
  refine ⟨[], [], text.map UInt8.toNat, [], ending.map UInt8.toNat, text.map digitValue, ?_,
    ⟨fun _ hmem ↦ absurd hmem List.not_mem_nil, .inl rfl, literal_of_digits h.nonempty h.digits,
      fun _ hmem ↦ absurd hmem List.not_mem_nil, hending⟩, ?_, ?_, h.range⟩
  · rw [unicode.decode_ascii hascii, List.map_append]
    rfl
  · rwa [List.length_map]
  · rw [← List.map_reverse]
    exact h.value

end Digits

/-- The files of a client and of a server that hold the same digits: the client has them behind the
colon of its line, and the server in a line of their own. -/
def SameDigits (serverInfo : Option Bytes) (portFile : Bytes) : Prop :=
  ∃ address text, (58 ∉ address ∧ 10 ∉ address ∧ 10 ∉ text) ∧
    (serverInfo = some (address ++ 58 :: text) ∨
      serverInfo = some (address ++ 58 :: text ++ [10])) ∧
      ∃ ending, Server.LineEnd (ending.map UInt8.toNat) ∧ portFile = text ++ ending

/-- The parts of the client's line. -/
theorem cut_line {file address text : Bytes} (hcolon : 58 ∉ address) (haddress : 10 ∉ address)
    (htext : 10 ∉ text)
    (hfile : file = address ++ 58 :: text ∨ file = address ++ 58 :: text ++ [10]) :
    (cut 10 file).bind (fun line ↦ cut 58 line.1) = some (address, text) := by
  have hline : 10 ∉ address ++ 58 :: text := by
    simp [haddress, htext]
  have hcut : cut 10 file = some (address ++ 58 :: text, []) := by
    rcases hfile with rfl | rfl
    · exact cut_last hline (List.append_ne_nil_of_right_ne_nil _ (List.cons_ne_nil _ _))
    · exact cut_append hline []
  rw [hcut]
  exact cut_append hcolon text

/-- A client and a server that are installed with the same digits meet. A client that comes to its
menu has connected to a port between 1 and 65535, and every server whose file holds the digits of
the client's file listens on this port, unless they are too many for `int`. -/
theorem client_meets_server (decode : Bytes → Except CppError Bytes) (installation : Installation)
    {ctx : ClientContext} (hstarts : (startUp decode installation).2 = .ok ctx) :
    ∃ address port, installation.connect address port = .ok () ∧ (1 ≤ port ∧ port ≤ 65535) ∧
      ∀ (unicode : Server.Unicode) (maxDigits : Option ℕ) (portFile : Bytes),
        SameDigits installation.serverInfo portFile → ¬maxDigits.any (· < portFile.length) →
          Server.getServerPort unicode maxDigits (.content portFile) = ⟨port, none⟩ := by
  obtain ⟨-, ⟨file, address, port, hinfo, ⟨haddress, text, hport, hfile⟩, hconnect⟩, -⟩ :=
    (startUp_eq_ok_iff decode installation ctx).mp hstarts
  refine ⟨address, port, hconnect, hport.range, fun unicode maxDigits portFile hsame hlimit ↦ ?_⟩
  obtain ⟨host, digits, ⟨hcolon, hhost, hdigits⟩, hother, ending, hending, rfl⟩ := hsame
  have htext : 10 ∉ text := fun hnewline ↦ absurd (hport.digits 10 hnewline).1 (by decide)
  have hsame : digits = text := by
    rw [hinfo, Option.some.injEq, Option.some.injEq] at hother
    have hparts := (cut_line hcolon hhost hdigits hother).symm.trans
      (cut_line haddress.plain.2.1 haddress.plain.2.2 htext hfile)
    exact (Prod.mk.inj (Option.some.inj hparts)).2
  subst hsame
  refine Server.getServerPort_of_file (portFile_of_portText hport (fun hmany ↦ hlimit ?_) hending)
  cases maxDigits with
  | none => cases hmany
  | some most =>
    have hshort : most < digits.length := of_decide_eq_true hmany
    refine decide_eq_true ?_
    rw [List.length_append]
    omega

/-- An installation with the line `127.0.0.1:1358` and a server that answers. -/
def localInstallation : Installation where
  pathLength := 20
  myInfo := none
  serverInfo := some ([49, 50, 55, 46, 48, 46, 48, 46, 49] ++ 58 :: [49, 51, 53, 56])
  connect _ _ := .ok ()

/-- The server has the digits with a newline. -/
theorem client_meets_server_local : ∃ address port,
    localInstallation.connect address port = .ok () ∧
    Server.getServerPort Server.asciiOnly (some 4300) (.content ([49, 51, 53, 56] ++ [10])) =
      ⟨port, none⟩ := by
  have hstarts : (startUp (fun _ ↦ .ok []) localInstallation).2 = .ok ClientContext.empty := by rfl
  obtain ⟨address, port, hconnect, -, hserver⟩ :=
    client_meets_server (fun _ ↦ .ok []) localInstallation hstarts
  refine ⟨address, port, hconnect,
    hserver Server.asciiOnly (some 4300) _ ⟨_, _, ?_, .inl rfl, [10], ?_,
    rfl⟩ (by decide)⟩
  · decide
  · exact .inr (.inl rfl)

end MessageU.System
