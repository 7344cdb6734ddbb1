import CaptureFilter.Json.Token

/-!
# Outlines of JSON texts

An outline is a JSON text as far as it can be followed: the tree of its values, in which the one
branch that leads to a fault ends with it. A reader walks an outline from left to right and stops
at the first thing it cannot take, be it a value of the wrong shape or the fault; that is the order
in which one pass over the text would meet them.

The tree is built by a machine that takes one token after another. Numbers out of range, strings
with an unpaired surrogate and deep nesting are no faults of an outline: whether they matter is up
to its reader.
-/

namespace CaptureFilter.Json

mutual

/-- A value of a text as far as it can be followed. A string with an unpaired surrogate has no
content; `broken` is a fault in place of a value. -/
inductive Outline where
  | null
  | bool (b : Bool)
  | number (n : Numeral)
  | string (content : Option String)
  | array (items : Items)
  | object (members : Members)
  | broken (b : Break)

/-- The elements of an array, which ends with its bracket or with a fault. -/
inductive Items where
  | nil
  | broken (b : Break)
  | cons (head : Outline) (tail : Items)

/-- The members of an object, which ends with its bracket or with a fault. -/
inductive Members where
  | nil
  | broken (b : Break)
  | cons (name : Option String) (value : Outline) (tail : Members)

end

/-- The elements in `before`, the last one first, in front of others. -/
def Items.prepend (before : List Outline) (tail : Items) : Items :=
  before.foldl (fun t v => .cons v t) tail

/-- The members in `before`, the last one first, in front of others. -/
def Members.prepend (before : List (Option String × Outline)) (tail : Members) : Members :=
  before.foldl (fun t m => .cons m.1 m.2 t) tail

/-! ## Building -/

/-- A container around the value that is being taken, with what stands before that value in it, the
last one first. -/
inductive Frame where
  | array (before : List Outline)
  | object (before : List (Option String × Outline)) (name : Option String)

/-- What must come next, with the containers around the place from the inside out: a value, the
first element or member behind an opening bracket, what follows an element or member, the name of a
member behind a comma, the colon behind the name. Nothing must come where the whole value is `done`,
or where a fault or something behind the whole value has `stopped` the reading. -/
inductive Stage where
  | value (outer : List Frame)
  | firstItem (outer : List Frame)
  | nextItem (outer : List Frame) (before : List Outline)
  | firstMember (outer : List Frame)
  | nextMember (outer : List Frame) (before : List (Option String × Outline))
  | memberName (outer : List Frame) (before : List (Option String × Outline))
  | colon (outer : List Frame) (before : List (Option String × Outline)) (name : Option String)
  | done (root : Outline)
  | stopped (root : Outline) (trailing : Bool)

namespace Stage

/-- A value is complete. -/
def deliver (v : Outline) : List Frame → Stage
  | [] => .done v
  | .array before :: outer => .nextItem outer (v :: before)
  | .object before name :: outer => .nextMember outer ((name, v) :: before)

/-- The outline of the whole text when a value breaks off inside its containers. -/
def wrap (b : Break) (v : Outline) : List Frame → Outline
  | [] => v
  | .array before :: outer => wrap b (.array (.prepend before (.cons v (.broken b)))) outer
  | .object before name :: outer =>
    wrap b (.object (.prepend before (.cons name v (.broken b)))) outer

/-- Stops with a value that breaks off. -/
def stop (b : Break) (v : Outline) (outer : List Frame) : Stage :=
  .stopped (wrap b v outer) false

/-- The break at a token where another one must stand. A broken token counts as any other there,
since its first character is wrong already. -/
def unexpected : Break := .both .malformed

/-- Takes the first token of a value. -/
def pushValue (t : Token) (outer : List Frame) : Stage :=
  match t with
  | .null => deliver .null outer
  | .bool b => deliver (.bool b) outer
  | .number n => deliver (.number n) outer
  | .string c => deliver (.string c) outer
  | .beginArray => .firstItem outer
  | .beginObject => .firstMember outer
  | .broken _ b => stop b (.broken b) outer
  | .endArray | .endObject | .comma | .colon => stop unexpected (.broken unexpected) outer

/-- Takes a token that must be the name of a member. -/
def pushName (t : Token) (outer : List Frame) (before : List (Option String × Outline)) : Stage :=
  match t with
  | .string name => .colon outer before name
  | .broken true b => stop b (.object (.prepend before (.broken b))) outer
  | _ => stop unexpected (.object (.prepend before (.broken unexpected))) outer

/-- Takes one token. -/
def push (s : Stage) (t : Token) : Stage :=
  match s with
  | .value outer => pushValue t outer
  | .firstItem outer =>
    if t = .endArray then deliver (.array .nil) outer else pushValue t (.array [] :: outer)
  | .nextItem outer before =>
    if t = .comma then .value (.array before :: outer)
    else if t = .endArray then deliver (.array (.prepend before .nil)) outer
    else stop unexpected (.array (.prepend before (.broken unexpected))) outer
  | .firstMember outer =>
    if t = .endObject then deliver (.object .nil) outer else pushName t outer []
  | .nextMember outer before =>
    if t = .comma then .memberName outer before
    else if t = .endObject then deliver (.object (.prepend before .nil)) outer
    else stop unexpected (.object (.prepend before (.broken unexpected))) outer
  | .memberName outer before => pushName t outer before
  | .colon outer before name =>
    if t = .colon then .value (.object before name :: outer)
    else
      stop unexpected
        (.object (.prepend before (.cons name (.broken unexpected) (.broken unexpected)))) outer
  | .done root => .stopped root true
  | .stopped root trailing => .stopped root trailing

/-- The break at the end of a text that is not complete. -/
def early : Break := .both .truncated

/-- Ends the text: the outline, and whether something follows the value. -/
def finish : Stage → Outline × Bool
  | .value outer => (wrap early (.broken early) outer, false)
  | .firstItem outer => (wrap early (.array (.broken early)) outer, false)
  | .nextItem outer before => (wrap early (.array (.prepend before (.broken early))) outer, false)
  | .firstMember outer => (wrap early (.object (.broken early)) outer, false)
  | .nextMember outer before | .memberName outer before =>
    (wrap early (.object (.prepend before (.broken early))) outer, false)
  | .colon outer before name =>
    (wrap early (.object (.prepend before (.cons name (.broken early) (.broken early)))) outer,
      false)
  | .done root => (root, false)
  | .stopped root trailing => (root, trailing)

end Stage

/-- The outline of a text, and whether more than blanks follow its value. -/
def outline (s : String) : Outline × Bool :=
  ((tokens s).foldl Stage.push (.value [])).finish

end CaptureFilter.Json
