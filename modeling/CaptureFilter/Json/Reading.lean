import CaptureFilter.Json.Outline
import CaptureFilter.Json.Value

/-!
# Reading outlines

The ways to read an outline: for its content, for what it is at a first look, or only to get past
it. What is wrong first, from left to right, is what a reader reports; what follows the value of a
text is looked at last.

Results:
* `Outline.look_eq_head`: a value that can be read looks like what it is.
-/

namespace CaptureFilter.Json

/-- A malformed text, as a reading error. -/
def malformed : Error := .fault .malformed

mutual

/-- The value of an outline, as a reader of its content takes it: numbers must be in range, strings
must be Unicode, and at most `room` containers may stand one in another. -/
def Outline.value (room : Nat) : Outline → Except Error Value
  | .null => .ok .null
  | .bool b => .ok (.bool b)
  | .number n => if n.inRange then .ok (.number n) else .error malformed
  | .string (some s) => .ok (.string s)
  | .string none => .error malformed
  | .array items =>
    match room with
    | 0 => .error malformed
    | room + 1 => (items.values room).map Value.array
  | .object members =>
    match room with
    | 0 => .error malformed
    | room + 1 => (members.values room).map Value.object
  | .broken b => .error (.fault b.reading)

/-- The values of the elements of an array. -/
def Items.values (room : Nat) : Items → Except Error (List Value)
  | .nil => .ok []
  | .broken b => .error (.fault b.reading)
  | .cons v vs => do
    let v ← v.value room
    let vs ← vs.values room
    return v :: vs

/-- The names and values of the members of an object. -/
def Members.values (room : Nat) : Members → Except Error (List (String × Value))
  | .nil => .ok []
  | .broken b => .error (.fault b.reading)
  | .cons none _ _ => .error malformed
  | .cons (some name) v ms => do
    let v ← v.value room
    let ms ← ms.values room
    return (name, v) :: ms

end

mutual

/-- Skims over an outline: only the text itself must be whole. -/
def Outline.skim : Outline → Except Error Unit
  | .array items => items.skim
  | .object members => members.skim
  | .broken b => .error (.fault b.skimming)
  | .null | .bool _ | .number _ | .string _ => .ok ()

/-- Skims over the elements of an array. -/
def Items.skim : Items → Except Error Unit
  | .nil => .ok ()
  | .broken b => .error (.fault b.skimming)
  | .cons v vs => do
    v.skim
    vs.skim

/-- Skims over the members of an object. -/
def Members.skim : Members → Except Error Unit
  | .nil => .ok ()
  | .broken b => .error (.fault b.skimming)
  | .cons _ v ms => do
    v.skim
    ms.skim

end

/-- What a value is at its first look. -/
def Value.head : Value → Head
  | .null => .null
  | .bool b => .bool b
  | .number n => .number n
  | .string s => .string s
  | .array _ => .array
  | .object _ => .object

/-- A first look at an outline: a scalar is read, the content of a container is left aside. -/
def Outline.look (o : Outline) : Except Error Head :=
  match o with
  | .array _ => .ok .array
  | .object _ => .ok .object
  | o => (o.value 0).map Value.head

theorem Outline.look_eq_head {o : Outline} {room : Nat} {v : Value} (h : o.value room = .ok v) :
    o.look = .ok v.head := by
  cases o with
  | null => cases h; rfl
  | bool b => cases h; rfl
  | number n =>
    by_cases hn : n.inRange <;> simp only [value, hn, if_true, Bool.false_eq_true, if_false] at h
    · cases h; simp [look, value, hn, Except.map, Value.head]
    · cases h
  | string c => cases c <;> cases h; rfl
  | array items =>
    cases room with
    | zero => cases h
    | succ room =>
      simp only [value] at h
      cases hi : items.values room <;> rw [hi] at h <;> cases h; rfl
  | object members =>
    cases room with
    | zero => cases h
    | succ room =>
      simp only [value] at h
      cases hm : members.values room <;> rw [hm] at h <;> cases h; rfl
  | broken b => cases h

/-- The most containers that may stand one in another. -/
def maxDepth : Nat := 127

/-- Reads a whole text with a reader of outlines. What follows the value counts only if the reader
has taken the value itself. -/
def readText {α : Type} (reader : Outline → Except Error α) (s : String) : Except Error α := do
  let (o, trailing) := outline s
  let a ← reader o
  if trailing then .error malformed else .ok a

/-- The value that a text spells. -/
def Value.ofText (s : String) : Except Error Value :=
  readText (Outline.value maxDepth) s

end CaptureFilter.Json
