import CaptureFilter.Text.Shown

/-!
# Quoted text

Messages that repeat a caller's text put it between double quotes in a form that shows every
character: the usual short escapes, a hexadecimal code point for what cannot be seen, and all else
as it stands. An apostrophe stands for itself.
-/

namespace CaptureFilter.Text

/-- One character of quoted text: a short escape where there is one, else the character itself if it
is shown, else its code point in lower-case hexadecimal digits. -/
def quotedChar (c : Char) : List Char :=
  match c with
  | '\x00' => ['\\', '0']
  | '\t' => ['\\', 't']
  | '\n' => ['\\', 'n']
  | '\r' => ['\\', 'r']
  | '"' => ['\\', '"']
  | '\\' => ['\\', '\\']
  | c => if isShown c then [c] else ['\\', 'u', '\x7b'] ++ Nat.toDigits 16 c.toNat ++ ['\x7d']

/-- A text between double quotes with each character shown. -/
def quoted (s : String) : String :=
  String.ofList (['"'] ++ s.toList.flatMap quotedChar ++ ['"'])

end CaptureFilter.Text
