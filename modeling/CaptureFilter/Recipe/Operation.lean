import CaptureFilter.Recipe.Field
import CaptureFilter.Step

/-!
# Operations of a recipe

The kind of a step as a recipe names it, and the fields that go with each kind. Qualifiers and
operators may be left out, every other field may not.

Results:
* `Operation.ofName?_name`: a name names its operation.
-/

namespace CaptureFilter

/-- An ordered list of steps. -/
structure Recipe where
  steps : List Step
deriving DecidableEq

namespace Recipe

open CaptureFilter.Json

/-- The name of the member that holds the operation. -/
def operationKey : String := "op"

/-- The kind of a step. -/
inductive Operation where
  | reset
  | discard
  | host
  | port
  | portRange
  | join (connective : Connective)
  | group
  | commit
deriving DecidableEq, Repr

namespace Operation

/-- Every operation, in the order in which messages list them. -/
def all : List Operation :=
  [reset, discard, host, port, portRange, join .and, join .or, join .not, group, commit]

/-- The name of an operation as a recipe writes it. -/
def name : Operation → String
  | reset => "init"
  | discard => "begin"
  | host => "host"
  | port => "port"
  | portRange => "port_range"
  | join c => c.keyword
  | group => "group"
  | commit => "end"

/-- The operation that has a given name. -/
def ofName? (s : String) : Option Operation :=
  all.find? (·.name = s)

theorem ofName?_name (op : Operation) : ofName? op.name = some op := by
  cases op with
  | join c => cases c <;> rfl
  | _ => rfl

/-- The fields of an operation, in the order in which a step without names lists them. -/
def fields : Operation → List Field
  | host => [.ip, .direction]
  | port => [.port, .direction, .protocol]
  | portRange => [.first, .last, .direction, .protocol]
  | group => [.operator]
  | reset | discard | join _ | commit => []

/-- What a message calls a step of this kind. -/
def title : Operation → String
  | reset => "Init"
  | discard => "Begin"
  | host => "Host"
  | port => "Port"
  | portRange => "PortRange"
  | join .and => "And"
  | join .or => "Or"
  | join .not => "Not"
  | group => "Group"
  | commit => "End"

/-- The field of an operation that has a given name. -/
def field? (op : Operation) (name : String) : Option Field :=
  op.fields.find? (·.name = name)

/-- The step of this kind with the fields that have been read; a field that must be there and is
not stops it. -/
def step (op : Operation) (fs : Fields) : Except Field Step :=
  let direction := fs.direction.getD .any
  let protocol := fs.protocol.getD .any
  match op with
  | reset => .ok .reset
  | discard => .ok .discard
  | host =>
    match fs.ip with
    | some a => .ok (.host a direction)
    | none => .error .ip
  | port =>
    match fs.port with
    | some p => .ok (.port p direction protocol)
    | none => .error .port
  | portRange =>
    match fs.first, fs.last with
    | some p, some q => .ok (.portRange p q direction protocol)
    | none, _ => .error .first
    | some _, none => .error .last
  | join c => .ok (.join c)
  | group => .ok (.group (fs.operator.getD none))
  | commit => .ok .commit

/-- Reads the name of an operation. -/
def ofHead : Head → Except Mismatch Operation
  | .string s => (ofName? s).elim (.error (.unknownName s (all.map name))) .ok
  | h => .error (.wrongType h "variant identifier")

end Operation

end Recipe

end CaptureFilter
