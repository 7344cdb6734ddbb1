/-!
# Paths of capture files

A capture file is named by the root alone, by one component behind a slash, or by several with one
slash between each two. A path of several components ends with two characters that are no slashes.
-/

namespace CaptureFilter.Capture

/-- Whether characters may follow the first one of a path's first component: they are taken one by
one, a slash only together with the next one, and at the end one is left that is no slash. -/
def isRest : List Char → Bool
  | [] => false
  | [c] => c ≠ '/'
  | c :: d :: cs => if c = '/' then d ≠ '/' && isRest cs else isRest (d :: cs)

/-- Whether a text names a capture file. -/
def isPath (path : String) : Bool :=
  match path.toList with
  | ['/'] => true
  | ['/', c] => c ≠ '/'
  | '/' :: c :: cs => c ≠ '/' && isRest cs
  | _ => false

end CaptureFilter.Capture
