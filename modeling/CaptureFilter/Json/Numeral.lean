import CaptureFilter.Number.Shortest

/-!
# Numerals

A JSON number as it is written: a sign, a whole part, the digits behind a point and an exponent. A
numeral without point and exponent is an integer if 64 bits hold it, with or without a sign; every
other one is rounded to binary64, and so is minus zero.

Rounding uses as many leading digits as 64 bits hold, and one rounded power of ten. Where the whole
part has more digits, those behind the point may still fill the last place.

Results:
* `Numeral.integer?_of_whole`: a whole part of up to 64 bits alone is an integer.
-/

namespace CaptureFilter.Json

open CaptureFilter.Number

/-- A number as a text writes it. Both `none` and an empty list of digits mean that the part is not
written; leading zeros of the exponent and the spelling of its mark are not kept. -/
structure Numeral where
  negative : Bool
  whole : Nat
  fraction : List Nat
  exponent : Option Int
deriving DecidableEq, Repr

namespace Numeral

/-- The numeral of a natural number. -/
def ofNat (n : Nat) : Numeral := ⟨false, n, [], none⟩

/-- The numeral as text. -/
def text (n : Numeral) : String :=
  (if n.negative then "-" else "") ++ toString n.whole ++
    (if n.fraction = [] then "" else "." ++ String.join (n.fraction.map toString)) ++
    (match n.exponent with
      | none => ""
      | some e => "e" ++ toString e)

/-- The integer that a numeral writes, if 64 bits hold it. -/
def integer? (n : Numeral) : Option Int :=
  if n.fraction = [] ∧ n.exponent = none then
    if n.negative then
      if 0 < n.whole ∧ n.whole ≤ 0x8000000000000000 then some (-n.whole) else none
    else if n.whole < 0x10000000000000000 then some n.whole else none
  else none

theorem integer?_of_whole {k : Nat} (h : k < 0x10000000000000000) :
    (ofNat k).integer? = some (k : Int) := by
  simp [integer?, ofNat, h]

/-! ## The nearest binary64 magnitude -/

/-- Whether 64 bits hold a number. -/
def fits (n : Nat) : Bool := n < 0x10000000000000000

/-- The leading digits of a whole part that 64 bits hold, and how many follow them. Nineteen digits
always fit, and twenty may. -/
def leading (n : Nat) : Nat × Nat :=
  let k := (Nat.toDigits 10 n).length - 20
  let dropped := if fits (n / Nat.pow 10 k) then k else k + 1
  (n / Nat.pow 10 dropped, dropped)

/-- Appends digits to a number while 64 bits hold it; also how many were appended. -/
def append (n : Nat) : List Nat → Nat × Nat
  | [] => (n, 0)
  | d :: ds =>
    if fits (10 * n + d) then
      let r := append (10 * n + d) ds
      (r.1, r.2 + 1)
    else (n, 0)

/-- The magnitude nearest to a power of ten. -/
def powerOfTen (k : Nat) : Fraction :=
  (Binary64.round (Fraction.ofNat (Nat.pow 10 k))).toFraction

/-- Divides a magnitude by ten to the `k`, in rounds of at most 308 places. Zero stays zero. -/
def shrink (m : Binary64) (k : Nat) : Binary64 :=
  if h : k ≤ 308 then Binary64.round (m.toFraction.div (powerOfTen k))
  else if m = .zero then .zero
  else shrink (Binary64.round (m.toFraction.div (powerOfTen 308))) (k - 308)
termination_by k
decreasing_by omega

/-- The binary64 magnitude of a numeral; `none` if it is beyond the end of the format. -/
def magnitude? (n : Numeral) : Option Binary64 :=
  let (whole, dropped) := leading n.whole
  let (digits, appended) := append whole n.fraction
  let e := n.exponent.getD 0 + dropped - appended
  let m := Binary64.round (Fraction.ofNat digits)
  if e < 0 then some (shrink m e.natAbs)
  else if m = .zero then some .zero
  else if 308 < e then none
  else
    let r := Binary64.round (m.toFraction.mul (powerOfTen e.natAbs))
    if r.isFinite then some r else none

/-- Whether a numeral has a value: it is an integer of 64 bits or not too large for binary64. -/
def inRange (n : Numeral) : Bool :=
  n.integer?.isSome || n.magnitude?.isSome

/-- The text of the binary64 value of a numeral. -/
def floatText (n : Numeral) : String :=
  (if n.negative then "-" else "") ++ (n.magnitude?.getD .zero).text

end Numeral

end CaptureFilter.Json
