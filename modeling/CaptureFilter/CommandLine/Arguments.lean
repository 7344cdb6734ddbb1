/-!
# Arguments

The arguments of the program are read from left to right. An option is known by its long name,
behind two dashes, or by a letter behind one. The value of an option stands behind an equals sign,
right behind the letter, or in the next argument, which then must not look like an option. An
argument of two dashes makes all that follow it positional; a single dash is positional anyway.

Reading ends at the first misuse, or where the program is asked about itself.

Results:
* `Scan.takeAll_append`: arguments are read one after another.
-/

namespace CaptureFilter.CommandLine

/-- An option that takes a value. -/
inductive Key where
  | tcpdump
  | interface
  | write
  | read
  | snaplen
  | fileSize
  | logLevel
deriving DecidableEq, Repr

/-- An option without a value. -/
inductive Flag where
  | command
  | json
deriving DecidableEq, Repr

/-- What the program can tell about itself. -/
inductive About where
  | help
  | version
deriving DecidableEq, Repr

/-- What the name of an option stands for. -/
inductive Switch where
  | flag (f : Flag)
  | key (k : Key)
  | about (a : About)
deriving DecidableEq, Repr

/-- The long names. They are not abbreviated. -/
def longNames : List (String × Switch) :=
  [("command", .flag .command), ("tcpdump", .key .tcpdump), ("interface", .key .interface),
   ("write", .key .write), ("read", .key .read), ("snaplen", .key .snaplen),
   ("file-size", .key .fileSize), ("json", .flag .json), ("log-level", .key .logLevel),
   ("help", .about .help), ("version", .about .version)]

/-- The letters. -/
def letters : List (Char × Switch) :=
  [('i', .key .interface), ('w', .key .write), ('r', .key .read), ('s', .key .snaplen),
   ('h', .about .help), ('V', .about .version)]

/-- Arguments that the program does not take. -/
inductive Misuse where
  | unknownOption (argument : String)
  | secondRecipe (argument : String)
  | repeated (argument : String)
  | missingValue (argument : String)
  | unwantedValue (argument : String)
  | missingRecipe
deriving DecidableEq, Repr

/-- The sentence that reports a misuse. -/
def Misuse.message : Misuse → String
  | unknownOption a => "unexpected argument '" ++ a ++ "' found"
  | secondRecipe a => "unexpected argument '" ++ a ++ "' found"
  | repeated a => "the argument '" ++ a ++ "' cannot be used multiple times"
  | missingValue a => "a value is required at '" ++ a ++ "' but none was supplied"
  | unwantedValue a => "unexpected value in '" ++ a ++ "' found"
  | missingRecipe => "the following required arguments were not provided: <RECIPE>"

/-- The lines that report a misuse. -/
def Misuse.lines (m : Misuse) : List String :=
  ["error: " ++ m.message, "For more information, try '--help'."]

/-- Why there is nothing to run. -/
inductive Stop where
  | about (a : About)
  | misuse (m : Misuse)
deriving DecidableEq, Repr

/-- What the program is asked to do: the source of the recipe and the options, each at most once. -/
structure Request where
  recipe : String
  flags : List Flag
  values : List (Key × String)
deriving DecidableEq, Repr

/-- Whether an option without a value is given. -/
def Request.has (r : Request) (f : Flag) : Bool := r.flags.contains f

/-- The value of an option, if it is given. -/
def Request.value? (r : Request) (k : Key) : Option String := r.values.lookup k

/-- The arguments that have been read, the option that waits for its value, and whether all that
follows is positional. -/
structure Scan where
  recipe : Option String
  flags : List Flag
  values : List (Key × String)
  pending : Option Key
  positional : Bool
deriving DecidableEq, Repr

namespace Scan

/-- No argument has been read. -/
def empty : Scan := ⟨none, [], [], none, false⟩

/-- Whether an argument looks like an option: it starts with a dash and is longer than that. -/
def looksLikeOption (argument : String) : Bool :=
  match argument.toList with
  | '-' :: _ :: _ => true
  | _ => false

/-- Takes the value of an option. The path of a program must not be empty. -/
def takeValue (s : Scan) (k : Key) (value argument : String) : Except Stop Scan :=
  if s.values.any (·.1 = k) then .error (.misuse (.repeated argument))
  else if k = .tcpdump ∧ value = "" then .error (.misuse (.missingValue argument))
  else .ok { s with values := s.values ++ [(k, value)], pending := none }

/-- Takes the recipe. -/
def takeRecipe (s : Scan) (argument : String) : Except Stop Scan :=
  match s.recipe with
  | none => .ok { s with recipe := some argument }
  | some _ => .error (.misuse (.secondRecipe argument))

/-- Takes an option with the value that stands in the same argument, if one does. -/
def takeSwitch (s : Scan) (sw : Switch) (value : Option String) (argument : String) :
    Except Stop Scan :=
  match sw, value with
  | .about a, none => .error (.about a)
  | .flag f, none =>
    if s.flags.contains f then .error (.misuse (.repeated argument))
    else .ok { s with flags := s.flags ++ [f] }
  | .key k, none => .ok { s with pending := some k }
  | .key k, some v => s.takeValue k v argument
  | .about _, some _ | .flag _, some _ => .error (.misuse (.unwantedValue argument))

/-- Takes an option by its long name, which ends at the first equals sign. -/
def takeLong (s : Scan) (body : List Char) (argument : String) : Except Stop Scan :=
  let name := String.ofList (body.takeWhile (· ≠ '='))
  let value := match body.dropWhile (· ≠ '=') with
    | [] => none
    | _ :: v => some (String.ofList v)
  match longNames.lookup name with
  | some sw => s.takeSwitch sw value argument
  | none => .error (.misuse (.unknownOption argument))

/-- Takes an option by its letter. Behind the letter of an option with a value stands the value,
with or without an equals sign; a question about the program is answered before anything behind its
letter is looked at. -/
def takeLetter (s : Scan) (c : Char) (rest : List Char) (argument : String) : Except Stop Scan :=
  match letters.lookup c with
  | some (.key k) =>
    let value := match rest with
      | [] => none
      | '=' :: v => some (String.ofList v)
      | v => some (String.ofList v)
    s.takeSwitch (.key k) value argument
  | some sw => s.takeSwitch sw none argument
  | none => .error (.misuse (.unknownOption argument))

/-- Takes one argument. -/
def take (s : Scan) (argument : String) : Except Stop Scan :=
  match s.pending with
  | some k =>
    if looksLikeOption argument then .error (.misuse (.missingValue argument))
    else s.takeValue k argument argument
  | none =>
    if s.positional then s.takeRecipe argument
    else
      match argument.toList with
      | ['-', '-'] => .ok { s with positional := true }
      | '-' :: '-' :: body => s.takeLong body argument
      | '-' :: c :: rest => s.takeLetter c rest argument
      | _ => s.takeRecipe argument

/-- Takes arguments in order. -/
def takeAll (s : Scan) : List String → Except Stop Scan
  | [] => .ok s
  | a :: as => do
    let s ← s.take a
    s.takeAll as

theorem takeAll_append (s : Scan) (as bs : List String) :
    s.takeAll (as ++ bs) = (s.takeAll as).bind fun t => t.takeAll bs := by
  induction as generalizing s with
  | nil => rfl
  | cons a as ih =>
    simp only [List.cons_append, takeAll, bind, Except.bind]
    cases s.take a with
    | error e => rfl
    | ok t => exact ih t

/-- Ends the arguments. -/
def finish (s : Scan) : Except Stop Request :=
  match s.pending, s.recipe with
  | some _, _ => .error (.misuse (.missingValue "the last argument"))
  | none, none => .error (.misuse .missingRecipe)
  | none, some recipe => .ok ⟨recipe, s.flags, s.values⟩

end Scan

/-- The request that arguments make. -/
def Request.ofArguments (arguments : List String) : Except Stop Request := do
  let s ← Scan.empty.takeAll arguments
  s.finish

/-- What the program is called. -/
def programName : String := "pcapexpr"

/-- The version of the program. -/
def programVersion : String := "0.1.0"

/-- The answer of the program to a question about itself. -/
def About.text : About → String
  | version => programName ++ " " ++ programVersion ++ "\n"
  | help => String.intercalate "\n"
    ["Compile pcap-filter expressions from JSON recipes", "",
     "Usage: " ++ programName ++ " [OPTIONS] <RECIPE>", "",
     "Arguments:",
     "  <RECIPE>  JSON recipe file, or \"-\" to read from stdin", "",
     "Options:",
     "      --command                Print the tcpdump command line instead of the bare filter",
     "      --tcpdump <TCPDUMP>      Path to the tcpdump executable",
     "  -i, --interface <INTERFACE>  Network interface to listen on",
     "  -w, --write <WRITE>          Write raw packets to this savefile",
     "  -r, --read <READ>            Read packets from this savefile",
     "  -s, --snaplen <SNAPLEN>      Snapshot length in bytes",
     "      --file-size <FILE_SIZE>  Rotate the savefile after this many million bytes",
     "      --json                   Print the result as JSON",
     "      --log-level <LOG_LEVEL>  Log level (trace, debug, info, warn, error, off) " ++
       "[default: info]",
     "  -h, --help                   Print help",
     "  -V, --version                Print version", ""]

end CaptureFilter.CommandLine
