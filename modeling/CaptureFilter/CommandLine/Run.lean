import CaptureFilter.Capture.Command
import CaptureFilter.CommandLine.Arguments
import CaptureFilter.Recipe.Reading

/-!
# Runs of the program

A run reads a recipe, compiles it and prints the filter, or the shell line of a capture command with
that filter, as it stands or inside a JSON object. The first thing that goes wrong ends it: an
unreadable recipe, a host that is no address, a part of the command that cannot be used.
-/

namespace CaptureFilter.CommandLine

open CaptureFilter.Capture (Command Change Config Registry)
open CaptureFilter.Json (Value)

/-- What a run sees of the machine it runs on: the texts of recipes that can be read, where `-`
names the standard input; which paths name files; and the report of the network interfaces. -/
structure Machine where
  read : String → Option String
  isFile : String → Bool
  interfaces : List (Option String)

/-- Why a run failed. -/
inductive Failure where
  | unreadable (source : String)
  | recipe (source : String) (error : Json.Error)
  | rejected (reason : Rejection)
  | command (error : Capture.Error)
deriving DecidableEq, Repr

/-- The sentence that reports a failure. -/
def Failure.message : Failure → String
  | unreadable source => "Failed to read recipe " ++ if source = "-" then "from stdin" else source
  | recipe source _ => "Failed to parse recipe " ++ source
  | rejected _ => "Failed to compile filter expression"
  | command e => e.message

/-- What lies behind a failure, where its message does not say it. -/
def Failure.cause : Failure → Option String
  | recipe _ e => some e.message
  | rejected r => some r.message
  | unreadable _ | command _ => none

/-- The lines that report a failure. -/
def Failure.lines (f : Failure) : List String :=
  ("Error: " ++ f.message) :: f.cause.toList.map fun cause => "\nCaused by:\n    " ++ cause

/-- How the program ends: its code, what it prints, and what it reports of a misuse, of a failure
and of its work. -/
structure Outcome where
  code : Nat
  output : String
  misuse : Option Misuse
  failure : Option Failure
  log : List Log.Entry
deriving DecidableEq, Repr

/-- The lines that report what is not printed. -/
def Outcome.lines (o : Outcome) : List String :=
  o.log.map Log.Entry.line ++ (o.misuse.map Misuse.lines).getD [] ++
    (o.failure.map Failure.lines).getD []

/-- What a run that does not fail has made. -/
structure Product where
  draft : Draft
  filter : String
  command : Option String
deriving DecidableEq, Repr

namespace Product

/-- The JSON form of a product. A command that was not asked for is left out. -/
def toValue (p : Product) : Value :=
  .object ([("filter", .string p.filter),
    ("stack", .array (p.draft.stack.map .string)),
    ("warnings", .array (p.draft.warnings.map fun w => .string w.name))] ++
    p.command.toList.map fun line => ("command", .string line))

/-- What a run prints. -/
def output (p : Product) (json : Bool) : String :=
  (if json then p.toValue.pretty else p.command.getD p.filter) ++ "\n"

end Product

namespace Request

/-- The entries that a run prints. -/
def threshold (r : Request) : Log.Threshold :=
  (r.value? .logLevel).elim (.level .info) Log.Threshold.ofText

/-- The configuration of the command. -/
def config (r : Request) (m : Machine) : Except Capture.Error Config :=
  match r.value? .tcpdump with
  | some path => Config.ofExecutable m.isFile path
  | none => .ok .default

/-- The changes that make the command, in the order in which they are made. -/
def changes (r : Request) (m : Machine) (filter : String) : List Change :=
  ((r.value? .interface).map (Change.interface (.machine m.interfaces))).toList ++
    ((r.value? .write).map Change.outputFile).toList ++
    ((r.value? .read).map Change.inputFile).toList ++
    ((r.value? .snaplen).map Change.snapLength).toList ++
    ((r.value? .fileSize).map Change.fileSize).toList ++ [.filter filter]

/-- The shell line of the command. -/
def shellLine (r : Request) (m : Machine) (filter : String) : Except Capture.Error String := do
  let c ← r.config m
  let c ← (Command.ofConfig c).applyAll (r.changes m filter)
  c.shellLine

/-- The report of making the command. -/
def shellLineJournal (r : Request) (m : Machine) (filter : String) : List Log.Entry :=
  match r.config m with
  | .error _ => []
  | .ok config =>
    let c := Command.ofConfig config
    c.changesJournal (r.changes m filter) ++
      match c.applyAll (r.changes m filter) with
      | .ok c => c.shellLineJournal
      | .error _ => []

/-- What a run makes of a recipe. -/
def product (r : Request) (m : Machine) (recipe : Recipe) : Except Failure Product :=
  match Draft.empty.compile recipe.steps with
  | (_, .error e) => .error (.rejected e)
  | (draft, .ok filter) =>
    if r.has .command then
      match r.shellLine m filter with
      | .ok line => .ok ⟨draft, filter, some line⟩
      | .error e => .error (.command e)
    else .ok ⟨draft, filter, none⟩

/-- The report of a run from the point where the recipe has been read. -/
def journal (r : Request) (m : Machine) (recipe : Recipe) : List Log.Entry :=
  ⟨.info, "Loaded recipe with " ++ toString recipe.steps.length ++ " steps"⟩ ::
    Draft.empty.runJournal recipe.steps ++
    match Draft.empty.compile recipe.steps with
    | (_, .ok filter) => if r.has .command then r.shellLineJournal m filter else []
    | (_, .error _) => []

/-- The recipe of a run. -/
def loadRecipe (r : Request) (m : Machine) : Except Failure Recipe :=
  match m.read r.recipe with
  | none => .error (.unreadable r.recipe)
  | some text => (Recipe.ofText text).mapError (.recipe r.recipe)

/-- Runs the program. -/
def run (r : Request) (m : Machine) : Outcome :=
  match r.loadRecipe m with
  | .error f => ⟨1, "", none, some f, []⟩
  | .ok recipe =>
    let log := r.threshold.filter (r.journal m recipe)
    match r.product m recipe with
    | .error f => ⟨1, "", none, some f, log⟩
    | .ok p => ⟨0, p.output (r.has .json), none, none, log⟩

end Request

/-- Runs the program with arguments. A misuse has a code of its own. -/
def execute (m : Machine) (arguments : List String) : Outcome :=
  match Request.ofArguments arguments with
  | .ok r => r.run m
  | .error (.about a) => ⟨0, a.text, none, none, []⟩
  | .error (.misuse u) => ⟨2, "", some u, none, []⟩

end CaptureFilter.CommandLine
