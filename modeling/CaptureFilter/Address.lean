import CaptureFilter.Text.Digits

/-!
# Address literals

An address is an IPv4 literal (four decimal numbers from 0 to 255 without superfluous zeros, joined
by dots) or an IPv6 literal (eight groups of one to four hexadecimal digits joined by colons, where
one `::` may stand for one or more groups and a dotted quad for the last two).

The text is read from left to right in one pass. Each reader takes the characters that are left and
returns those it leaves, or `none` if its part is not there.

Results:
* `Address.ofText?_eq_some_iff`, `Address.ofText?_eq_none_iff`: the texts that are addresses, which
  keep their spelling, and the ones that are not.
-/

namespace CaptureFilter

namespace Address

/-- A hexadecimal digit of either case. -/
def isHexDigit (c : Char) : Bool :=
  (Text.hexDigit? c).isSome

/-- One to three digits without a superfluous zero, for a number up to 255. -/
def isOctet (ds : List Char) : Bool :=
  ds ≠ [] && ds.length ≤ 3 && (ds.head? ≠ some '0' || ds.length == 1) && Text.decimal ds ≤ 255

/-- One to four hexadecimal digits. -/
def isGroup (ds : List Char) : Bool :=
  ds ≠ [] && ds.length ≤ 4

/-- Reads all the decimal digits in front, which must make an octet. -/
def octet (cs : List Char) : Option (List Char) :=
  if isOctet (cs.takeWhile Char.isDigit) then some (cs.dropWhile Char.isDigit) else none

/-- Reads all the hexadecimal digits in front, which must make a group. -/
def group (cs : List Char) : Option (List Char) :=
  if isGroup (cs.takeWhile isHexDigit) then some (cs.dropWhile isHexDigit) else none

/-- Reads the character `c`. -/
def char (c : Char) : List Char → Option (List Char)
  | [] => none
  | d :: cs => if d = c then some cs else none

/-- Reads four octets joined by dots. -/
def quad (cs : List Char) : Option (List Char) := do
  let cs ← octet cs
  let cs ← octet (← char '.' cs)
  let cs ← octet (← char '.' cs)
  octet (← char '.' cs)

/-- What a row of groups came to: how many groups it counts for, whether a dotted quad ended it, and
the characters left. -/
structure Row where
  size : Nat
  quad : Bool
  rest : List Char

/-- Reads `part` at the start of a row, and behind a colon further on. -/
def inRow (start : Bool) (part : List Char → Option (List Char)) (cs : List Char) :
    Option (List Char) :=
  if start then part cs else (char ':' cs).bind part

/-- Reads the longest row of groups that has room. A dotted quad is tried first wherever two groups
have room; it counts for two and ends the row. Where neither is there, the row ends before the colon
that would have led to it. -/
def row : Nat → Bool → List Char → Row
  | 0, _, cs => ⟨0, false, cs⟩
  | room + 1, start, cs =>
    match if 1 ≤ room then inRow start quad cs else none with
    | some rest => ⟨2, true, rest⟩
    | none =>
      match inRow start group cs with
      | some rest =>
        let r := row room false rest
        ⟨r.size + 1, r.quad, r.rest⟩
      | none => ⟨0, false, cs⟩

/-- Reads an IPv6 literal: eight groups, or fewer that do not end in a quad, then `::`, then as many
as leave one group to the `::`. -/
def ipv6 (cs : List Char) : Option (List Char) :=
  let front := row 8 true cs
  if front.size = 8 then some front.rest
  else if front.quad then none
  else do
    let cs ← char ':' (← char ':' front.rest)
    some (row (7 - front.size) true cs).rest

/-- Whether a text is an address literal from its first character to its last. A text that starts
with a dotted quad is not tried as an IPv6 literal. -/
def isLiteral (s : String) : Bool :=
  match (quad s.toList).or (ipv6 s.toList) with
  | some rest => rest.isEmpty
  | none => false

end Address

/-- An address literal, spelled as it was given. -/
structure Address where
  text : String
  valid : Address.isLiteral text = true
deriving DecidableEq

namespace Address

/-- The address that a text spells. Kept folded in proofs, which use the lemmas below. -/
@[irreducible] def ofText? (s : String) : Option Address :=
  if h : isLiteral s = true then some ⟨s, h⟩ else none

theorem ofText?_eq_some_iff {s : String} {a : Address} :
    ofText? s = some a ↔ a.text = s := by
  constructor
  · intro h
    unfold ofText? at h
    split at h <;> simp_all
    rw [← h]
  · rintro rfl
    unfold ofText?
    simp [a.valid]

theorem ofText?_eq_none_iff {s : String} : ofText? s = none ↔ isLiteral s = false := by
  unfold ofText?
  split <;> simp_all

theorem ofText?_isSome (s : String) : (ofText? s).isSome = isLiteral s := by
  unfold ofText?
  split <;> simp_all

end Address

end CaptureFilter
