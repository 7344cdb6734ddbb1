import CaptureFilter.CommandLine.Run

/-!
# The program

Looks at the machine, runs the program with the arguments and prints what comes of it: the result to
the standard output, everything else to the standard error.
-/

namespace CaptureFilter.CommandLine

/-- The text of a stream up to its end. -/
partial def readToEnd (stream : IO.FS.Stream) (before : String) : IO String := do
  let line ← stream.getLine
  if line.isEmpty then return before else readToEnd stream (before ++ line)

/-- The text of a recipe, if it can be read. -/
def readSource (source : String) : IO (Option String) := do
  try
    if source = "-" then return some (← readToEnd (← IO.getStdin) "")
    else return some (← IO.FS.readFile source)
  catch _ => return none

/-- Whether a path names a file. -/
def namesFile (path : String) : IO Bool := do
  try
    let place ← IO.FS.realPath path
    return (← place.metadata).type == .file
  catch _ => return false

/-- The report of the network interfaces, whose names stand before a colon in the system's table. -/
def listInterfaces : IO (List (Option String)) := do
  try
    let table ← IO.FS.readFile "/proc/net/dev"
    return (table.splitOn "\n").filterMap fun line =>
      match line.splitOn ":" with
      | name :: _ :: _ => some (some (Text.trim name))
      | _ => none
  catch _ => return [none]

/-- What a run with some arguments needs to know of the machine. -/
def Machine.observe (arguments : List String) : IO Machine := do
  match Request.ofArguments arguments with
  | .error _ => return ⟨fun _ => none, fun _ => false, []⟩
  | .ok r =>
    let text ← readSource r.recipe
    let known ← match r.value? .tcpdump with
      | some path => namesFile path
      | none => pure false
    return ⟨fun _ => text, fun _ => known, ← listInterfaces⟩

end CaptureFilter.CommandLine

open CaptureFilter.CommandLine in
/-- Runs the program and answers its exit code. -/
def main (arguments : List String) : IO UInt32 := do
  let outcome := execute (← Machine.observe arguments) arguments
  for line in outcome.lines do
    IO.eprintln line
  IO.print outcome.output
  return outcome.code.toUInt32
