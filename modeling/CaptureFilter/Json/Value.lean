import CaptureFilter.Json.Numeral

/-!
# JSON values

A JSON value and its two written forms: compact, without any blank, and indented, with each element
and member on a line of its own. Both keep the members of an object in their order and write a
string with short escapes where JSON has them and four-digit escapes for other control characters.

Results:
* `Value.compact_array`, `Value.compact_object`: the compact form of a container.
-/

namespace CaptureFilter.Json

/-- A JSON value. The members of an object keep their order, and names may repeat. -/
inductive Value where
  | null
  | bool (b : Bool)
  | number (n : Numeral)
  | string (s : String)
  | array (items : List Value)
  | object (members : List (String × Value))
deriving Repr

namespace Value

/-- One character of a written string. -/
def escapeChar (c : Char) : List Char :=
  match c with
  | '"' => ['\\', '"']
  | '\\' => ['\\', '\\']
  | '\x08' => ['\\', 'b']
  | '\x0c' => ['\\', 'f']
  | '\n' => ['\\', 'n']
  | '\r' => ['\\', 'r']
  | '\t' => ['\\', 't']
  | c =>
    if c.toNat < 0x20 then
      ['\\', 'u', '0', '0', Nat.digitChar (c.toNat / 16), Nat.digitChar (c.toNat % 16)]
    else [c]

/-- A string between double quotes, with its escapes. -/
def stringText (s : String) : String :=
  String.ofList (['"'] ++ s.toList.flatMap escapeChar ++ ['"'])

mutual

/-- The text of a value without blanks. -/
def compact : Value → String
  | null => "null"
  | bool b => if b then "true" else "false"
  | number n => n.text
  | string s => stringText s
  | array items => "[" ++ String.intercalate "," (compactItems items) ++ "]"
  | object members => "\x7b" ++ String.intercalate "," (compactMembers members) ++ "\x7d"

/-- The texts of the elements of an array. -/
def compactItems : List Value → List String
  | [] => []
  | v :: vs => v.compact :: compactItems vs

/-- The texts of the members of an object. -/
def compactMembers : List (String × Value) → List String
  | [] => []
  | (k, v) :: ms => (stringText k ++ ":" ++ v.compact) :: compactMembers ms

end

@[simp] theorem compactItems_eq_map (vs : List Value) : compactItems vs = vs.map compact := by
  induction vs with
  | nil => rfl
  | cons v vs ih => simp [compactItems, ih]

@[simp] theorem compactMembers_eq_map (ms : List (String × Value)) :
    compactMembers ms = ms.map fun m => stringText m.1 ++ ":" ++ m.2.compact := by
  induction ms with
  | nil => rfl
  | cons m ms ih => simp [compactMembers, ih]

theorem compact_array (vs : List Value) :
    (array vs).compact = "[" ++ String.intercalate "," (vs.map compact) ++ "]" := by
  simp [compact]

theorem compact_object (ms : List (String × Value)) :
    (object ms).compact =
      "\x7b" ++ String.intercalate "," (ms.map fun m => stringText m.1 ++ ":" ++ m.2.compact) ++
        "\x7d" := by
  simp [compact]

/-- A container over several lines: its entries two columns deeper than `depth`, and its closing
bracket at `depth`. A container without entries stays on one line. -/
def block (opening closing : String) (depth : Nat) (entries : List String) : String :=
  let indent (n : Nat) : String := "\n" ++ String.ofList (List.replicate (2 * n) ' ')
  match entries with
  | [] => opening ++ closing
  | es => opening ++ indent (depth + 1) ++ String.intercalate ("," ++ indent (depth + 1)) es ++
      indent depth ++ closing

mutual

/-- The text of a value over several lines, inside `depth` containers. -/
def indented (depth : Nat) : Value → String
  | array items => block "[" "]" depth (indentedItems (depth + 1) items)
  | object members => block "\x7b" "\x7d" depth (indentedMembers (depth + 1) members)
  | null => compact null
  | bool b => compact (bool b)
  | number n => compact (number n)
  | string s => compact (string s)

/-- The texts of the elements of an array. -/
def indentedItems (depth : Nat) : List Value → List String
  | [] => []
  | v :: vs => indented depth v :: indentedItems depth vs

/-- The texts of the members of an object. -/
def indentedMembers (depth : Nat) : List (String × Value) → List String
  | [] => []
  | (k, v) :: ms => (stringText k ++ ": " ++ indented depth v) :: indentedMembers depth ms

end

/-- The text of a value over several lines. -/
def pretty (v : Value) : String := v.indented 0

end Value

end CaptureFilter.Json
