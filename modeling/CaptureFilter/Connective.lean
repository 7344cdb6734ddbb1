/-!
# Connectives

The words that join or negate the parts of a filter, and the operator spellings that name them.

Results:
* `Connective.ofAlias?_keyword`: a keyword is one of the spellings of its connective.
-/

namespace CaptureFilter

/-- A word between two parts of a filter, or in front of one. -/
inductive Connective where
  | and
  | or
  | not
deriving DecidableEq, Repr

namespace Connective

/-- The word that a filter writes for a connective. -/
def keyword : Connective → String
  | .and => "and"
  | .or => "or"
  | .not => "not"

/-- The keyword with a space on each side, as it stands in a clause. -/
def token (c : Connective) : String :=
  " " ++ c.keyword ++ " "

/-- The operator spellings and the connective that each one names. -/
def aliases : List (String × Connective) :=
  [("and", .and), ("concate", .and), ("&&", .and),
   ("or", .or), ("alternate", .or), ("||", .or),
   ("not", .not), ("negate", .not), ("!", .not)]

/-- The connective that an operator spelling names. Case matters. -/
def ofAlias? (s : String) : Option Connective :=
  aliases.lookup s

theorem ofAlias?_keyword (c : Connective) : ofAlias? c.keyword = some c := by
  cases c <;> decide

end Connective

end CaptureFilter
