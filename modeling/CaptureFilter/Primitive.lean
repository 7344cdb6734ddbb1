import CaptureFilter.Address
import CaptureFilter.Port
import CaptureFilter.Qualifier

/-!
# Primitives

A primitive is one test on a packet: its host, its port, or a range of ports. Its text is its
qualifiers, its keyword and its value with one space between each two; a qualifier that narrows
nothing is left out. The bounds of a range are written as given, also when the first is the larger.
-/

namespace CaptureFilter

/-- One test on a packet. -/
inductive Primitive where
  | host (address : Address) (direction : Direction)
  | port (port : Port) (direction : Direction) (protocol : Protocol)
  | portRange (first last : Port) (direction : Direction) (protocol : Protocol)
deriving DecidableEq

namespace Primitive

/-- The parts of a primitive in the order in which they are written, some perhaps empty. -/
def parts : Primitive → List String
  | host a d => [d.keyword, "host", a.text]
  | port p d t => [t.keyword, d.keyword, "port", p.text]
  | portRange p q d t => [t.keyword, d.keyword, "portrange", p.text ++ "-" ++ q.text]

/-- The words of a primitive: its parts that are not empty. -/
def words (p : Primitive) : List String :=
  p.parts.filter (· ≠ "")

/-- The text of a primitive. -/
def text (p : Primitive) : String :=
  String.intercalate " " p.words

end Primitive

end CaptureFilter
