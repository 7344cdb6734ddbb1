import CaptureFilter.Log

/-!
# Network interfaces

An interface name is one run of ASCII letters, digits and underscores, or two with a dot between
them. A registry tells which names exist. The registry of the machine also knows the name `any`,
which stands for all its interfaces at once.

Results:
* `Registry.contains_machine_iff`: the names that the machine knows.
-/

namespace CaptureFilter.Capture

/-- A character of an interface name. -/
def isNameChar (c : Char) : Bool := c.isAlphanum || c == '_'

/-- Whether a text has the form of an interface name. -/
def isInterfaceName (s : String) : Bool :=
  let device := s.toList.takeWhile isNameChar
  match s.toList.dropWhile isNameChar with
  | [] => !device.isEmpty
  | c :: vlan => !device.isEmpty && c == '.' && !vlan.isEmpty && vlan.all isNameChar

/-- The interfaces that exist: the names of a list, or those that the machine reports one by one,
with `none` where its report breaks off. -/
inductive Registry where
  | listed (names : List String)
  | machine (report : List (Option String))
deriving DecidableEq, Repr

namespace Registry

/-- The name that stands for all interfaces of the machine. -/
def anyInterface : String := "any"

/-- The names of a registry, without `any`. Of a report that breaks off none is kept. -/
def names : Registry → List String
  | listed ns => ns
  | machine report => if none ∈ report then [] else report.filterMap id

/-- Whether an interface of exactly that name exists. -/
def contains (r : Registry) (name : String) : Bool :=
  match r with
  | listed ns => ns.contains name
  | machine report => name == anyInterface || (machine report).names.contains name

theorem contains_machine_iff {report : List (Option String)} {name : String} :
    (machine report).contains name = true ↔
      name = "any" ∨ none ∉ report ∧ some name ∈ report := by
  by_cases h : none ∈ report <;> simp [contains, names, anyInterface, h]

/-- The report of looking a name up. -/
def journal (r : Registry) (name : String) : List Log.Entry :=
  match r with
  | listed _ => []
  | machine report =>
    if name = anyInterface then
      [⟨.info, "Using pseudo-interface 'any', capture will not be promiscuous"⟩]
    else if none ∈ report then [⟨.error, "Failed to list network interfaces"⟩]
    else [⟨.debug, "Found " ++ toString report.length ++ " network interfaces"⟩]

end Registry

end CaptureFilter.Capture
