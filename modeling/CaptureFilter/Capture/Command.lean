import CaptureFilter.Capture.Config
import CaptureFilter.Capture.Interface
import CaptureFilter.Capture.Path
import CaptureFilter.Shell
import CaptureFilter.Text.Digits
import CaptureFilter.Text.Quoted

/-!
# Capture commands

A capture command is a program, options in the order in which they were first set, and a filter. A
command without a filter has neither arguments nor a shell line.

Results:
* `Command.filtered_eq_error_iff`: both forms of a command fail for an empty filter and for nothing
  else.
-/

namespace CaptureFilter.Capture

/-- An option: a flag and its value, if it has one. -/
structure Setting where
  flag : String
  value : Option String
deriving DecidableEq, Repr

namespace Setting

/-- Sets an option among others. A flag that is there keeps its place and gets the new value. -/
def insert (s : Setting) : List Setting → List Setting
  | [] => [s]
  | t :: ts => if t.flag = s.flag then s :: ts else t :: insert s ts

/-- The report of setting an option. -/
def journal (s : Setting) : Log.Entry :=
  let value := s.value.elim "None" fun v => "Some(" ++ Text.quoted v ++ ")"
  ⟨.debug, "Setting tcpdump option " ++ s.flag ++ " " ++ value⟩

/-- The words of an option as they stand. -/
def words (s : Setting) : List String := s.flag :: s.value.toList

/-- The words of an option for a shell. The flag is not quoted. -/
def shellWords (s : Setting) : List String := s.flag :: s.value.toList.map Shell.quote

end Setting

/-- A capture command. -/
structure Command where
  executable : String
  options : List Setting
  filter : String
deriving DecidableEq, Repr

/-- A change to a command: other options in the place of all that are there, of which nothing is
checked; an interface that exists in a registry; the file that packets are written to or read from;
after how many million bytes another output file is begun; how many bytes of a packet are kept; the
filter. -/
inductive Change where
  | options (settings : List Setting)
  | interface (registry : Registry) (name : String)
  | outputFile (path : String)
  | inputFile (path : String)
  | fileSize (value : String)
  | snapLength (value : String)
  | filter (text : String)
deriving DecidableEq, Repr

/-- The options that a change sets, in order. -/
def Change.settings : Change → List Setting
  | options settings => settings
  | interface _ name => [⟨"-i", some name⟩]
  | outputFile path => [⟨"-w", some path⟩]
  | inputFile path => [⟨"-r", some path⟩]
  | fileSize value => [⟨"-C", some value⟩]
  | snapLength value => [⟨"-s", some value⟩]
  | filter _ => []

namespace Command

/-- The command of a configuration, without options and filter. -/
def ofConfig (c : Config) : Command := ⟨c.executable, [], ""⟩

/-- The command with one more option. -/
def set (c : Command) (flag value : String) : Command :=
  { c with options := Setting.insert ⟨flag, some value⟩ c.options }

/-- Sets an option to the path of a capture file. -/
def setPath (c : Command) (flag path : String) : Except Error Command :=
  if isPath path then .ok (c.set flag path) else .error (.invalidPath path)

/-- Sets an option to a digit text. -/
def setNumber (c : Command) (flag title value : String) : Except Error Command :=
  if Text.isDigits value then .ok (c.set flag value) else .error (.invalidNumber title value)

/-- Makes a change. -/
def apply (c : Command) : Change → Except Error Command
  | .options settings =>
    .ok { c with options := settings.foldl (fun ts s => Setting.insert s ts) [] }
  | .interface registry name =>
    if isInterfaceName name then
      if registry.contains name then .ok (c.set "-i" name)
      else .error (.unknownInterface name)
    else .error (.invalidInterface name)
  | .outputFile path => c.setPath "-w" path
  | .inputFile path => c.setPath "-r" path
  | .fileSize value => c.setNumber "-C" "file size" value
  | .snapLength value => c.setNumber "-s" "snap length" value
  | .filter text => if text = "" then .error .emptyFilter else .ok { c with filter := text }

/-- Makes a change if it can be made, and tells whether it was. -/
def attempt (c : Command) (ch : Change) : Command × Except Error Unit :=
  match c.apply ch with
  | .ok c' => (c', .ok ())
  | .error e => (c, .error e)

/-- The command after a row of changes. One that cannot be made does not stop the ones after it. -/
def attemptAll (c : Command) (chs : List Change) : Command :=
  chs.foldl (fun c ch => (c.attempt ch).1) c

/-- Makes changes in order up to the first that fails. -/
def applyAll (c : Command) : List Change → Except Error Command
  | [] => .ok c
  | ch :: chs => do
    let c ← c.apply ch
    c.applyAll chs

/-- What is made of a command that has a filter. -/
def filtered {α : Type} (c : Command) (a : α) : Except Error α :=
  if c.filter = "" then .error .emptyFilter else .ok a

/-- The words behind the program: each option, then the filter. -/
def words (c : Command) : Except Error (List String) :=
  c.filtered (c.options.flatMap Setting.words ++ [c.filter])

/-- The command as a line for a POSIX shell. -/
def shellLine (c : Command) : Except Error String :=
  c.filtered (String.intercalate " "
    (Shell.quote c.executable :: c.options.flatMap Setting.shellWords ++ [Shell.quote c.filter]))

theorem filtered_of_eq {α : Type} {c : Command} (h : c.filter = "") (a : α) :
    c.filtered a = .error .emptyFilter :=
  if_pos h

theorem filtered_of_ne {α : Type} {c : Command} (h : c.filter ≠ "") (a : α) :
    c.filtered a = .ok a :=
  if_neg h

theorem filtered_eq_error_iff {α : Type} {c : Command} {a : α} {e : Error} :
    c.filtered a = .error e ↔ c.filter = "" ∧ e = .emptyFilter := by
  by_cases h : c.filter = ""
  · simp [filtered_of_eq h, h, eq_comm]
  · simp [filtered_of_ne h, h]

/-! ## Starting the program -/

/-- A program to start, with its arguments. -/
structure Invocation where
  program : String
  arguments : List String
deriving DecidableEq, Repr

/-- A word that a program can be given. None can hold the character NUL, so a word with one is
replaced as a whole. -/
def processWord (s : String) : String :=
  if s.toList.contains '\x00' then "<string-with-nul>" else s

/-- How the program is started without a shell. -/
def invocation (c : Command) : Except Error Invocation :=
  c.words.map fun ws => ⟨processWord c.executable, ws.map processWord⟩

/-! ## What changes report -/

/-- The report of looking up what a change names. -/
def lookupJournal : Change → List Log.Entry
  | .interface registry name => if isInterfaceName name then registry.journal name else []
  | _ => []

/-- The report of one change. A change that fails may have reported a look at a registry. -/
def changeJournal (c : Command) (ch : Change) : List Log.Entry :=
  lookupJournal ch ++
    match c.apply ch with
    | .ok _ => ch.settings.map Setting.journal
    | .error _ => []

/-- The report of changes, up to the one that fails. -/
def changesJournal (c : Command) : List Change → List Log.Entry
  | [] => []
  | ch :: chs =>
    c.changeJournal ch ++
      match c.apply ch with
      | .ok c => c.changesJournal chs
      | .error _ => []

/-- The report of a shell line. -/
def shellLineJournal (c : Command) : List Log.Entry :=
  match c.shellLine with
  | .ok line => [⟨.info, "Compiled tcpdump command: " ++ line⟩]
  | .error _ => []

end Command

end CaptureFilter.Capture
