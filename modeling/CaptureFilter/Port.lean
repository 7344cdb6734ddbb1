import CaptureFilter.Rejection
import CaptureFilter.Text.Digits

/-!
# Ports

A port is a number from 0 to 65535. It is given as an integer or as a digit text of any length, and
is written as its decimal number.

Results:
* `Port.ofInt_natCast`: an integer in range is the port of that number.
* `Port.isText_eq`: the check of a text answers as its reading does.
-/

namespace CaptureFilter

/-- The largest port. -/
def maxPort : Nat := 65535

/-- A transport port. -/
structure Port where
  number : Nat
  le_max : number ≤ maxPort
deriving DecidableEq

namespace Port

/-- A port the way a caller gives it. -/
inductive Given where
  | number (n : Int)
  | text (s : String)
deriving DecidableEq, Repr

/-- The port of a number. -/
def ofNat? (n : Nat) : Option Port :=
  if h : n ≤ maxPort then some ⟨n, h⟩ else none

/-- The port of an integer; one out of range is rejected by its decimal text. -/
def ofInt (n : Int) : Except Rejection Port :=
  match n with
  | .ofNat k => (ofNat? k).elim (.error (.port (toString n))) .ok
  | .negSucc _ => .error (.port (toString n))

/-- The port of a digit text; any other text, or a number out of range, is rejected. -/
def ofText (s : String) : Except Rejection Port :=
  ((Text.decimal? s).bind ofNat?).elim (.error (.port s)) .ok

/-- The port that a caller gives as a number or as a text. -/
def ofGiven : Given → Except Rejection Port
  | .number n => ofInt n
  | .text s => ofText s

/-- Whether an integer is the number of a port. -/
def isNumber (n : Int) : Bool :=
  0 ≤ n && n ≤ (maxPort : Int)

/-- Whether a text is one or more digits for a number in range. -/
def isText (s : String) : Bool :=
  Text.isDigits s && Text.decimal s.toList ≤ maxPort

/-- The decimal number of a port. -/
def text (p : Port) : String :=
  toString p.number

theorem ofInt_natCast {n : Nat} (h : n ≤ maxPort) : ofInt (n : Int) = .ok ⟨n, h⟩ := by
  simp [ofInt, ofNat?, h]

theorem isText_eq (s : String) : isText s = (ofText s).isOk := by
  simp only [isText, ofText, Text.decimal?]
  cases Text.isDigits s
  · rfl
  · by_cases h : Text.decimal s.toList ≤ maxPort <;> simp [ofNat?, h, Except.isOk, Except.toBool]

end Port

end CaptureFilter
