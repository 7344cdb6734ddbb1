import CaptureFilter.Json.Numeral
import CaptureFilter.Rejection

/-!
# Reading errors

Why a JSON text is not what a reader expects. The text may break a rule of JSON, or end before its
value does; where neither is so, the value has the wrong shape.
-/

namespace CaptureFilter.Json

/-- What keeps a text from being JSON: a character that no rule allows there, or an end inside a
value. -/
inductive Fault where
  | malformed
  | truncated
deriving DecidableEq, Repr

/-- What a value is at its first look: a scalar, or a container whose content is left aside. -/
inductive Head where
  | null
  | bool (b : Bool)
  | number (n : Numeral)
  | string (s : String)
  | array
  | object
deriving DecidableEq, Repr

/-- A description of a value in a message. -/
def Head.describe : Head → String
  | null => "null"
  | bool b => "boolean `" ++ (if b then "true" else "false") ++ "`"
  | number n =>
    match n.integer? with
    | some i => "integer `" ++ toString i ++ "`"
    | none => "floating point `" ++ n.floatText ++ "`"
  | string s => "string " ++ Text.quoted s
  | array => "sequence"
  | object => "map"

/-- A value of the wrong shape: not of the kind that is expected, a name that is none of those
allowed, an object without a field or with two of it, a list of the wrong length, a value that fits
none of the forms of a type, or one that its reader rejects. -/
inductive Mismatch where
  | wrongType (found : Head) (expected : String)
  | unknownName (name : String) (allowed : List String)
  | missingField (name : String)
  | duplicateField (name : String)
  | wrongLength (length : Nat) (expected : String)
  | noForm (type : String)
  | rejected (reason : Rejection)
deriving DecidableEq, Repr

/-- The sentence that reports a mismatch. -/
def Mismatch.message : Mismatch → String
  | wrongType f e => "invalid type: " ++ f.describe ++ ", expected " ++ e
  | unknownName n ns =>
    "unknown variant `" ++ n ++ "`, expected one of " ++
      String.intercalate ", " (ns.map fun m => "`" ++ m ++ "`")
  | missingField n => "missing field `" ++ n ++ "`"
  | duplicateField n => "duplicate field `" ++ n ++ "`"
  | wrongLength k e => "invalid length " ++ toString k ++ ", expected " ++ e
  | noForm t => "data did not match any variant of untagged enum " ++ t
  | rejected r => r.message

/-- Why a text could not be read. -/
inductive Error where
  | fault (f : Fault)
  | mismatch (m : Mismatch)
deriving DecidableEq, Repr

/-- The sentence that reports an error. -/
def Error.message : Error → String
  | fault .malformed => "JSON error: malformed text"
  | fault .truncated => "JSON error: text ends too early"
  | mismatch m => "JSON error: " ++ m.message

end CaptureFilter.Json
