/-!
# Capture command errors

Why a capture command cannot be put together. An error carries the text that was refused, so that
its message can repeat it.
-/

namespace CaptureFilter.Capture

/-- A part of a capture command that cannot be used: a text that has not the form of an interface
name, a name that no interface has, a path of no capture file, a value that is no digit text with
the title of its option, an empty filter, the path of a program that names no file. -/
inductive Error where
  | invalidInterface (name : String)
  | unknownInterface (name : String)
  | invalidPath (path : String)
  | invalidNumber (title value : String)
  | emptyFilter
  | noExecutable (path : String)
deriving DecidableEq, Repr

/-- The sentence that reports an error. -/
def Error.message : Error → String
  | invalidInterface n => "invalid interface name " ++ n
  | unknownInterface n => "interface " ++ n ++ " does not exist"
  | invalidPath p => "invalid file path: " ++ p
  | invalidNumber t v => "invalid " ++ t ++ " value " ++ v
  | emptyFilter => "pcap filter expression cannot be empty"
  | noExecutable p => "no such executable: " ++ p

end CaptureFilter.Capture
