import CaptureFilter.Connective
import CaptureFilter.Log
import CaptureFilter.Primitive
import CaptureFilter.Text.Blank

/-!
# Drafts of a filter

A draft is a filter that is being written. Primitives and connectives are added to its open
fragment; committing puts a copy of the fragment on the stack, and the stack, read from its first
entry to its last, makes the filter.

Committing leaves the open fragment as it is. Grouping puts the fragment in parentheses, commits it
and opens an empty one. Neither puts an empty fragment on the stack; a warning is kept instead.

Results:
* `Draft.fragment_add`, `Draft.fragment_join`: what an addition does to the open fragment.
* `Draft.commit_of_fragment_ne`, `Draft.commit_of_fragment_eq`: what committing does.
* `Draft.group_of_fragment_ne`, `Draft.group_of_fragment_eq`: what grouping does.
-/

namespace CaptureFilter

/-- Something that is worth reporting and stops nothing: a commit where there was nothing to commit.
-/
inductive Warning where
  | emptyExpression
deriving DecidableEq, Repr

namespace Warning

/-- The name of a warning in a result. -/
def name : Warning → String
  | emptyExpression => "empty_expression"

/-- The sentence that reports a warning. -/
def message : Warning → String
  | emptyExpression => "Expression empty, not stacking"

end Warning

/-- A filter that is being written: the text added since the fragment was opened, the committed
fragments, and the warnings since the draft was empty, the first one first. -/
structure Draft where
  fragment : String
  stack : List String
  warnings : List Warning
deriving DecidableEq, Repr

namespace Draft

/-- The draft in which nothing has been written. -/
def empty : Draft := ⟨"", [], []⟩

/-- Drops everything: the fragment, the stack and the warnings. -/
def reset (_ : Draft) : Draft := empty

/-- Drops the open fragment. -/
def discard (d : Draft) : Draft :=
  { d with fragment := "" }

/-- Adds a primitive to the open fragment, with nothing before it. -/
def add (p : Primitive) (d : Draft) : Draft :=
  { d with fragment := d.fragment ++ p.text }

/-- Adds a connective to the open fragment, whether or not it joins anything. -/
def join (c : Connective) (d : Draft) : Draft :=
  { d with fragment := d.fragment ++ c.token }

/-- Puts a copy of the open fragment on the stack, or keeps a warning if the fragment is empty. -/
def commit (d : Draft) : Draft :=
  if d.fragment = "" then { d with warnings := d.warnings ++ [.emptyExpression] }
  else { d with stack := d.stack ++ [d.fragment] }

/-- Puts the open fragment in parentheses, with a connective in front of them if one is given. An
empty fragment stays empty. -/
def enclose (c : Option Connective) (d : Draft) : Draft :=
  if d.fragment = "" then d
  else { d with fragment := c.elim "" Connective.token ++ "(" ++ d.fragment ++ ")" }

/-- Commits the open fragment as a group and opens an empty one. -/
def group (c : Option Connective) (d : Draft) : Draft :=
  (d.enclose c).commit.discard

/-- The filter text of some fragments: their words with one space between each two. -/
def renderAll (fragments : List String) : String :=
  Text.unwords (fragments.flatMap Text.words)

/-- The filter text of a draft, made of its stack alone. -/
def render (d : Draft) : String :=
  renderAll d.stack

@[simp] theorem fragment_add (p : Primitive) (d : Draft) :
    (d.add p).fragment = d.fragment ++ p.text := rfl

@[simp] theorem fragment_join (c : Connective) (d : Draft) :
    (d.join c).fragment = d.fragment ++ c.token := rfl

theorem commit_of_fragment_ne {d : Draft} (h : d.fragment ≠ "") :
    d.commit = { d with stack := d.stack ++ [d.fragment] } := by
  simp [commit, h]

theorem commit_of_fragment_eq {d : Draft} (h : d.fragment = "") :
    d.commit = { d with warnings := d.warnings ++ [.emptyExpression] } := by
  simp [commit, h]

theorem group_of_fragment_ne {d : Draft} (h : d.fragment ≠ "") (c : Option Connective) :
    d.group c =
      { d with
        fragment := ""
        stack := d.stack ++ [c.elim "" Connective.token ++ "(" ++ d.fragment ++ ")"] } := by
  simp [group, enclose, h, commit, discard]

theorem group_of_fragment_eq {d : Draft} (h : d.fragment = "") (c : Option Connective) :
    d.group c = { d with warnings := d.warnings ++ [.emptyExpression] } := by
  simp [group, enclose, h, commit, discard]

/-! ## What each operation reports -/

/-- The report of dropping the open fragment: what was in it, if anything. -/
def discardJournal (d : Draft) : List Log.Entry :=
  if d.fragment = "" then [] else [⟨.trace, "Discarding unstacked fragment: " ++ d.fragment⟩]

/-- The report of adding a primitive. -/
def addJournal (p : Primitive) : List Log.Entry :=
  [⟨.trace, "Adding primitive: " ++ p.text⟩]

/-- The report of committing: the text without the blanks at its ends, or the warning. -/
def commitJournal (d : Draft) : List Log.Entry :=
  if d.fragment = "" then [⟨.warn, Warning.emptyExpression.message⟩]
  else [⟨.debug, "Stacking expression: " ++ Text.trim d.fragment⟩]

/-- The report of grouping: that of committing, then that of dropping what was committed. -/
def groupJournal (c : Option Connective) (d : Draft) : List Log.Entry :=
  (d.enclose c).commitJournal ++ (d.enclose c).commit.discardJournal

end Draft

end CaptureFilter
