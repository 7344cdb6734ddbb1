import CaptureFilter.Recipe.Operation

/-!
# Writing recipes

A recipe is written as an array of objects. The member `op` comes first, and every field of the
operation follows it, also one that could be left out.

Results:
* `Step.map_fst_fieldValues`: a step is written with all the fields of its operation, in order.
-/

namespace CaptureFilter

open CaptureFilter.Json

/-- The value of a qualifier. -/
def Qualifier.toValue {α : Type} (q : Qualifier α) (a : α) : Value := .string (q.keyword a)

/-- The value of a direction. -/
def Direction.toValue : Direction → Value := qualifier.toValue

/-- The value of a protocol. -/
def Protocol.toValue : Protocol → Value := qualifier.toValue

/-- The value of a port. -/
def Port.toValue (p : Port) : Value := .number (.ofNat p.number)

namespace Step

open Recipe (Operation Field operationKey)

/-- The operation of a step. -/
def operation : Step → Operation
  | reset => .reset
  | discard => .discard
  | host _ _ => .host
  | port _ _ _ => .port
  | portRange _ _ _ _ => .portRange
  | join c => .join c
  | group _ => .group
  | commit => .commit

/-- The fields of a step with their values, in order. -/
def fieldValues : Step → List (Field × Value)
  | host a dir => [(.ip, .string a), (.direction, dir.toValue)]
  | port p dir proto =>
    [(.port, p.toValue), (.direction, dir.toValue), (.protocol, proto.toValue)]
  | portRange p q dir proto =>
    [(.first, p.toValue), (.last, q.toValue), (.direction, dir.toValue),
      (.protocol, proto.toValue)]
  | group op => [(.operator, op.elim .null .string)]
  | reset | discard | join _ | commit => []

theorem map_fst_fieldValues (s : Step) : s.fieldValues.map Prod.fst = s.operation.fields := by
  cases s <;> rfl

/-- The value of a step. -/
def toValue (s : Step) : Value :=
  .object ((operationKey, .string s.operation.name) ::
    s.fieldValues.map fun p => (p.1.name, p.2))

end Step

/-- The value of a recipe. -/
def Recipe.toValue (r : Recipe) : Value := .array (r.steps.map Step.toValue)

/-- The text of a recipe. -/
def Recipe.text (r : Recipe) : String := r.toValue.compact

end CaptureFilter
