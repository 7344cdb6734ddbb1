/-!
# Shell quoting

A word for a POSIX shell stands between apostrophes, where every character but the apostrophe is
literal. An apostrophe of the word itself closes the quotes, stands behind a backslash, and opens
them again.
-/

namespace CaptureFilter.Shell

/-- One character of a quoted word. -/
def quoteChar (c : Char) : List Char :=
  if c = '\'' then ['\'', '\\', '\'', '\''] else [c]

/-- A word between apostrophes. -/
def quote (word : String) : String :=
  String.ofList (['\''] ++ word.toList.flatMap quoteChar ++ ['\''])

end CaptureFilter.Shell
