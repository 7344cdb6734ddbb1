import CaptureFilter.Json.Reading
import CaptureFilter.Qualifier
import CaptureFilter.Port

/-!
# Fields of a step

The named values that the steps of a recipe hold, how each is read, and the values that are given
when no field of that name is there.

Results:
* `Qualifier.ofHead_keyword`: a written qualifier is read as itself.
-/

namespace CaptureFilter

open CaptureFilter.Json

/-- Reads a string. -/
def Json.Head.text : Head → Except Mismatch String
  | .string s => .ok s
  | h => .error (.wrongType h "a string")

/-- Reads a string or null. -/
def Json.Head.text? : Head → Except Mismatch (Option String)
  | .null => .ok none
  | h => h.text.map some

/-- Reads a qualifier, written as its keyword. -/
def Qualifier.ofHead {α : Type} (q : Qualifier α) (h : Head) : Except Mismatch α := do
  let s ← h.text
  (q.ofText s).mapError .rejected

theorem Qualifier.ofHead_keyword {α : Type} (q : Qualifier α) (a : α) :
    q.ofHead (.string (q.keyword a)) = .ok a := by
  have htext : q.ofText (q.keyword a) = .ok a := q.ofText_eq_ok_iff.mpr rfl
  show (q.ofText (q.keyword a)).mapError Mismatch.rejected = .ok a
  rw [htext]
  rfl

/-- Reads a port, written as a digit text or as an integer that 64 bits hold with a sign. -/
def Port.ofHead : Head → Except Mismatch Port
  | .string s => (ofText s).mapError .rejected
  | .number n =>
    match n.integer? with
    | some i =>
      if i < 0x8000000000000000 then (ofInt i).mapError .rejected
      else .error (.noForm "PortValue")
    | none => .error (.noForm "PortValue")
  | _ => .error (.noForm "PortValue")

namespace Recipe

/-- The name of a value in a step. -/
inductive Field where
  | ip
  | port
  | first
  | last
  | direction
  | protocol
  | operator
deriving DecidableEq, Repr

/-- The name of a field as a recipe writes it. -/
def Field.name : Field → String
  | ip => "ip"
  | port => "port"
  | first => "start"
  | last => "end"
  | direction => "direction"
  | protocol => "protocol"
  | operator => "operator"

/-- The fields that have been read. -/
structure Fields where
  ip : Option String
  port : Option Port
  first : Option Port
  last : Option Port
  direction : Option Direction
  protocol : Option Protocol
  operator : Option (Option String)
deriving DecidableEq

namespace Fields

/-- No field has been read. -/
def empty : Fields := ⟨none, none, none, none, none, none, none⟩

/-- Whether a field has been read. -/
def has (fs : Fields) : Field → Bool
  | .ip => fs.ip.isSome
  | .port => fs.port.isSome
  | .first => fs.first.isSome
  | .last => fs.last.isSome
  | .direction => fs.direction.isSome
  | .protocol => fs.protocol.isSome
  | .operator => fs.operator.isSome

/-- Reads a field. -/
def put (fs : Fields) (f : Field) (h : Head) : Except Mismatch Fields :=
  match f with
  | .ip => h.text.map fun v => { fs with ip := some v }
  | .port => (Port.ofHead h).map fun v => { fs with port := some v }
  | .first => (Port.ofHead h).map fun v => { fs with first := some v }
  | .last => (Port.ofHead h).map fun v => { fs with last := some v }
  | .direction => (Direction.qualifier.ofHead h).map fun v => { fs with direction := some v }
  | .protocol => (Protocol.qualifier.ofHead h).map fun v => { fs with protocol := some v }
  | .operator => h.text?.map fun v => { fs with operator := some v }

end Fields

end Recipe

end CaptureFilter
