import CaptureFilter.Capture.Error
import CaptureFilter.Json.Reading

/-!
# Configuration of capture commands

Which program a capture command runs, and the JSON form of that setting: an object with one known
member, or an array of one element. Unknown members are skimmed over, so that only their text has to
be whole.
-/

namespace CaptureFilter.Capture

open CaptureFilter.Json (Value Head Mismatch Outline Items Members malformed readText)

/-- How capture commands are put together. -/
structure Config where
  executable : String
deriving DecidableEq, Repr

namespace Config

/-- The usual place of the capture program. -/
def defaultExecutable : String := "/usr/sbin/tcpdump"

/-- The configuration that is used when none is given. -/
def default : Config := ⟨defaultExecutable⟩

/-- The configuration for a program, whose path must name a file. It is kept as written. -/
def ofExecutable (isFile : String → Bool) (path : String) : Except Error Config :=
  if isFile path then .ok ⟨path⟩ else .error (.noExecutable path)

/-- The name of the member that holds the program. -/
def executableKey : String := "tcpdump_executable"

/-- The value of a configuration. -/
def toValue (c : Config) : Value := .object [(executableKey, .string c.executable)]

/-- The text of a configuration. -/
def text (c : Config) : String := c.toValue.compact

/-- Reads the path of a program. -/
def pathOfHead : Head → Except Mismatch String
  | .string s => .ok s
  | h => .error (.wrongType h "path string")

/-- Reads the members of a configuration, of which the program may have been met. -/
def ofMembers (met : Option String) : Members → Except Json.Error Config
  | .nil =>
    match met with
    | some path => .ok ⟨path⟩
    | none => .error (.mismatch (.missingField executableKey))
  | .broken b => .error (.fault b.reading)
  | .cons none _ _ => .error malformed
  | .cons (some name) v ms =>
    if name = executableKey then
      if met.isSome then .error (.mismatch (.duplicateField executableKey))
      else do
        let h ← v.look
        let path ← (pathOfHead h).mapError .mismatch
        ofMembers (some path) ms
    else do
      v.skim
      ofMembers met ms

/-- Reads the elements of a configuration. A second one is not looked at. -/
def ofItems : Items → Except Json.Error Config
  | .nil => .error (.mismatch (.wrongLength 0 "struct TcpdumpConfig with 1 element"))
  | .broken b => .error (.fault b.reading)
  | .cons v vs => do
    let h ← v.look
    let path ← (pathOfHead h).mapError .mismatch
    match vs with
    | .nil => .ok ⟨path⟩
    | .broken b => .error (.fault b.reading)
    | .cons _ _ => .error malformed

/-- Reads a configuration. -/
def ofOutline : Outline → Except Json.Error Config
  | .array items => ofItems items
  | .object members => ofMembers none members
  | o => do
    let h ← o.look
    .error (.mismatch (.wrongType h "struct TcpdumpConfig"))

/-- The configuration that a text spells. -/
def ofText (s : String) : Except Json.Error Config :=
  readText ofOutline s

end Config

end CaptureFilter.Capture
