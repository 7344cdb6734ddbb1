/-!
# Log entries

What the program reports while it works. An entry has a level; a threshold lets the entries of its
own level and of the graver ones pass.
-/

namespace CaptureFilter.Log

/-- How grave an entry is. -/
inductive Level where
  | trace
  | debug
  | info
  | warn
  | error
deriving DecidableEq, Repr

/-- The place of a level, the gravest highest. -/
def Level.rank : Level → Nat
  | trace => 0
  | debug => 1
  | info => 2
  | warn => 3
  | error => 4

/-- The name of a level in a log line. -/
def Level.name : Level → String
  | trace => "TRACE"
  | debug => "DEBUG"
  | info => "INFO"
  | warn => "WARN"
  | error => "ERROR"

/-- One report. -/
structure Entry where
  level : Level
  text : String
deriving DecidableEq, Repr

/-- The line of an entry, without the time. -/
def Entry.line (e : Entry) : String :=
  "[" ++ e.level.name ++ "] - " ++ e.text

/-- The least grave level that passes, if any. -/
inductive Threshold where
  | off
  | level (l : Level)
deriving DecidableEq, Repr

namespace Threshold

/-- The name of a threshold. -/
def name : Threshold → String
  | off => "OFF"
  | level l => l.name

/-- The threshold that a word names in any case; any other word means `info`. Changing the case of
the ASCII letters is enough, since no other character has one of the letters of these names as its
lower-case form. -/
def ofText (s : String) : Threshold :=
  match s.map Char.toLower with
  | "trace" => level .trace
  | "debug" => level .debug
  | "info" => level .info
  | "warn" => level .warn
  | "error" => level .error
  | "off" => off
  | _ => level .info

/-- Whether entries of a level pass. -/
def admits : Threshold → Level → Bool
  | off, _ => false
  | level t, l => t.rank ≤ l.rank

/-- The entries that pass, in order. -/
def filter (t : Threshold) (es : List Entry) : List Entry :=
  es.filter fun e => t.admits e.level

end Threshold

end CaptureFilter.Log
