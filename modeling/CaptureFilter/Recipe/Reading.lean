import CaptureFilter.Recipe.Operation

/-!
# Reading recipes

A recipe is a JSON array of steps. A step is an object whose member `op` names the operation, or an
array that starts with that name and lists the fields in order.

The operation is checked where it is met. The other members or elements are kept until the step is
complete and then read in the order in which they were written; members that are no field of the
operation are passed over.
-/

namespace CaptureFilter

open CaptureFilter.Json

namespace Recipe

/-- Reads the members of a step up to the end of the object: the operation, unless it was met
before, and the other members in order. -/
def scanMembers (room : Nat) (met : Option Operation) :
    Members → Except Error (Operation × List (String × Value))
  | .nil =>
    match met with
    | some op => .ok (op, [])
    | none => .error (.mismatch (.missingField operationKey))
  | .broken b => .error (.fault b.reading)
  | .cons none _ _ => .error malformed
  | .cons (some name) v ms =>
    if name = operationKey then
      if met.isSome then .error (.mismatch (.duplicateField operationKey))
      else do
        let h ← v.look
        let op ← (Operation.ofHead h).mapError .mismatch
        scanMembers room (some op) ms
    else do
      let v ← v.value room
      let (op, rest) ← scanMembers room met ms
      return (op, (name, v) :: rest)

/-- Reads one member of a step. A field may be there once. -/
def putMember (op : Operation) (fs : Fields) (m : String × Value) : Except Mismatch Fields :=
  match op.field? m.1 with
  | none => .ok fs
  | some f => if fs.has f then .error (.duplicateField f.name) else fs.put f m.2.head

/-- Reads the members of a step in order. -/
def putMembers (op : Operation) (fs : Fields) : List (String × Value) → Except Mismatch Fields
  | [] => .ok fs
  | m :: ms => do
    let fs ← putMember op fs m
    putMembers op fs ms

/-- The step that an operation and the members beside it make. -/
def stepOfMembers (op : Operation) (ms : List (String × Value)) : Except Mismatch Step := do
  let fs ← putMembers op .empty ms
  (op.step fs).mapError fun f => .missingField f.name

/-- Reads elements as the fields of a step, in order, as long as there are both. -/
def putItems (fs : Fields) : List Field → List Value → Except Mismatch Fields
  | f :: rest, v :: vs => do
    let fs ← fs.put f v.head
    putItems fs rest vs
  | [], _ | _, [] => .ok fs

/-- A number of elements, in words. -/
def elementCount (n : Nat) : String :=
  toString n ++ if n = 1 then " element" else " elements"

/-- The step that an operation and the elements behind it make. -/
def stepOfItems (op : Operation) (vs : List Value) : Except Mismatch Step := do
  let fs ← putItems .empty op.fields vs
  let s ← (op.step fs).mapError fun _ => .wrongLength vs.length
    ("struct variant Step::" ++ op.title ++ " with " ++ elementCount op.fields.length)
  if op.fields.length < vs.length then
    .error (.wrongLength vs.length (elementCount op.fields.length ++ " in sequence"))
  else return s

end Recipe

/-- Reads a step, with room for so many containers one in another. -/
def Step.ofOutline (room : Nat) (o : Outline) : Except Error Step :=
  match o, room with
  | .array _, 0 | .object _, 0 => .error malformed
  | .array .nil, _ => .error (.mismatch (.missingField Recipe.operationKey))
  | .array (.broken b), _ => .error (.fault b.reading)
  | .array (.cons v vs), room + 1 => do
    let h ← v.look
    let op ← (Recipe.Operation.ofHead h).mapError .mismatch
    let vs ← vs.values room
    (Recipe.stepOfItems op vs).mapError .mismatch
  | .object ms, room + 1 => do
    let (op, ms) ← Recipe.scanMembers room none ms
    (Recipe.stepOfMembers op ms).mapError .mismatch
  | o, _ => do
    let h ← o.look
    .error (.mismatch (.wrongType h "internally tagged enum Step"))

namespace Recipe

/-- Reads the steps of a recipe. -/
def stepsOfItems (room : Nat) : Items → Except Error (List Step)
  | .nil => .ok []
  | .broken b => .error (.fault b.reading)
  | .cons v vs => do
    let s ← Step.ofOutline room v
    let ss ← stepsOfItems room vs
    return s :: ss

/-- Reads a recipe. -/
def ofOutline (o : Outline) : Except Error Recipe :=
  match o with
  | .array items => (stepsOfItems (maxDepth - 1) items).map Recipe.mk
  | o => do
    let h ← o.look
    .error (.mismatch (.wrongType h "a sequence"))

/-- The recipe that a text spells. -/
def ofText (s : String) : Except Error Recipe :=
  readText ofOutline s

end Recipe

/-! ## Parts of a recipe as texts of their own -/

/-- The step that a text spells. -/
def Step.ofText (s : String) : Except Error Step :=
  readText (ofOutline maxDepth) s

/-- The qualifier that a JSON text spells. -/
def Qualifier.ofJson {α : Type} (q : Qualifier α) (s : String) : Except Error α :=
  readText (fun o => do (q.ofHead (← o.look)).mapError .mismatch) s

/-- The direction that a JSON text spells. -/
def Direction.ofJson : String → Except Error Direction := qualifier.ofJson

/-- The protocol that a JSON text spells. -/
def Protocol.ofJson : String → Except Error Protocol := qualifier.ofJson

/-- The port that a JSON text spells. The whole value is read before it is found to be none. -/
def Port.ofJson (s : String) : Except Error Port :=
  readText (fun o => do (ofHead (← o.value maxDepth).head).mapError .mismatch) s

end CaptureFilter
