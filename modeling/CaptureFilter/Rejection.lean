import CaptureFilter.Text.Quoted

/-!
# Rejected arguments

Why a primitive of a filter cannot be written with the arguments it was given. A rejection carries
the text that was given, so that its message can repeat it.
-/

namespace CaptureFilter

/-- An argument that no primitive takes: the text of what is no address, port, direction or
transport protocol. A number that is no port has its decimal text. -/
inductive Rejection where
  | address (text : String)
  | port (text : String)
  | direction (text : String)
  | protocol (text : String)
deriving DecidableEq, Repr

/-- The sentence that reports a rejection. A direction or protocol is repeated in quoted form, an
address or port as it was given. -/
def Rejection.message : Rejection → String
  | .address t => "expression error: " ++ t ++ " doesn't look like a valid ip"
  | .port t => "expression error: " ++ t ++ " doesn't look like a valid port number"
  | .direction t => "expression error: invalid packet direction " ++ Text.quoted t
  | .protocol t => "expression error: invalid protocol " ++ Text.quoted t

end CaptureFilter
