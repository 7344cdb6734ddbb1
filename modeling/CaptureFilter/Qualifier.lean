import CaptureFilter.Rejection

/-!
# Qualifiers

A primitive may be narrowed to one direction of flow and to one transport protocol. The qualifier
that narrows nothing has the empty keyword. Directions and protocols are two kinds of qualifier,
which are read from texts in the same way.

Results:
* `Qualifier.ofText_eq_ok_iff`: a text is read as the member whose keyword it is.
-/

namespace CaptureFilter

/-- In a list where every item is found by its name, a name finds the item that has it. -/
theorem find?_name_eq_some_iff {α : Type} {name : α → String} {items : List α}
    (h : ∀ a, items.find? (name · = name a) = some a) {s : String} {a : α} :
    items.find? (name · = s) = some a ↔ s = name a := by
  constructor
  · intro hfind
    have hname := List.find?_some hfind
    exact (of_decide_eq_true hname).symm
  · rintro rfl
    exact h a

/-- A kind of qualifier: its members, the default first, the word that a filter writes for each, and
the rejection of any other text. A member is found by its word, so no two have the same. -/
structure Qualifier (α : Type) where
  members : List α
  keyword : α → String
  reject : String → Rejection
  find?_keyword (a : α) : members.find? (keyword · = keyword a) = some a

namespace Qualifier

variable {α : Type} (q : Qualifier α)

/-- The member that has a given keyword. -/
def ofText (s : String) : Except Rejection α :=
  (q.members.find? (q.keyword · = s)).elim (.error (q.reject s)) .ok

/-- Whether a text is the keyword of a member. -/
def isText (s : String) : Bool :=
  q.members.any (q.keyword · = s)

theorem mem_members (a : α) : a ∈ q.members :=
  List.mem_of_find?_eq_some (q.find?_keyword a)

theorem ofText_eq_ok_iff {s : String} {a : α} : q.ofText s = .ok a ↔ s = q.keyword a := by
  have hfind : q.members.find? (q.keyword · = s) = some a ↔ s = q.keyword a :=
    find?_name_eq_some_iff q.find?_keyword
  rw [ofText, ← hfind]
  cases q.members.find? (q.keyword · = s) <;> simp

end Qualifier

/-- Which side of a packet a primitive speaks of: the sender, the receiver or either. -/
inductive Direction where
  | any
  | src
  | dst
deriving DecidableEq, Repr

namespace Direction

/-- Every direction, the default first. -/
def all : List Direction := [.any, .src, .dst]

/-- The word that a filter writes for a direction. -/
def keyword : Direction → String
  | .any => ""
  | .src => "src"
  | .dst => "dst"

/-- Directions as qualifiers. -/
def qualifier : Qualifier Direction :=
  ⟨all, keyword, .direction, fun d => by cases d <;> rfl⟩

/-- The direction that has a given keyword. -/
def ofText : String → Except Rejection Direction := qualifier.ofText

/-- Whether a text is the keyword of a direction. -/
def isText : String → Bool := qualifier.isText

end Direction

/-- Which transport protocol a primitive speaks of, or both of them. -/
inductive Protocol where
  | any
  | tcp
  | udp
deriving DecidableEq, Repr

namespace Protocol

/-- Every protocol, the default first. -/
def all : List Protocol := [.any, .tcp, .udp]

/-- The word that a filter writes for a protocol. -/
def keyword : Protocol → String
  | .any => ""
  | .tcp => "tcp"
  | .udp => "udp"

/-- Protocols as qualifiers. -/
def qualifier : Qualifier Protocol :=
  ⟨all, keyword, .protocol, fun p => by cases p <;> rfl⟩

/-- The protocol that has a given keyword. -/
def ofText : String → Except Rejection Protocol := qualifier.ofText

/-- Whether a text is the keyword of a protocol. -/
def isText : String → Bool := qualifier.isText

end Protocol

end CaptureFilter
