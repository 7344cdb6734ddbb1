import CaptureFilter.Number.Binary64

/-!
# Shortest decimal text

The text of a binary64 magnitude shows the fewest digits that round back to it; of the digit rows of
that length, the one nearest to it; of two equally near, the even one. Numbers from `1e-5` up to
below `1e16` are written with a plain decimal point and at least one digit behind it, all others
with an exponent that has a sign.
-/

namespace CaptureFilter.Number

/-- The decimal `digits * 10 ^ exponent`. -/
structure Decimal where
  digits : Nat
  exponent : Int
deriving DecidableEq, Repr

namespace Decimal

/-- The magnitude nearest to a decimal. -/
def round (d : Decimal) : Binary64 :=
  Binary64.round ((Fraction.ofNat d.digits).scale 10 d.exponent)

/-- The same number without zeros at the end of the digits. -/
def trim (d : Decimal) : Decimal :=
  let zeros := ((Nat.toDigits 10 d.digits).reverse.takeWhile (· == '0')).length
  ⟨d.digits / Nat.pow 10 zeros, d.exponent + zeros⟩

/-- The decimal that rounds to `m`, has its last digit at `10 ^ exponent` and is the nearest such;
`none` if neither neighbour of `m` on that grid rounds to it. -/
def near? (m : Binary64) (exponent : Int) : Option Decimal :=
  let x := m.toFraction.scale 10 (-exponent)
  let n := x.num / x.den
  let below : Decimal := ⟨n, exponent⟩
  let above : Decimal := ⟨n + 1, exponent⟩
  if below.round = m then
    if above.round = m then some ⟨x.nearest, exponent⟩ else some below
  else if above.round = m then some above
  else none

/-- The decimal with the fewest digits that rounds to a positive magnitude. Seventeen digits are
always enough. -/
def shortest (m : Binary64) : Decimal :=
  let top := m.toFraction.floorLog 10
  (((List.range 17).findSome? fun (n : Nat) => near? m (top - n)).getD ⟨0, 0⟩).trim

/-- A decimal with its point among the digits, or with an exponent if the point would stand more
than sixteen places behind the start of the digits or more than four places in front of it. -/
def text (d : Decimal) : String :=
  let ds := Nat.toDigits 10 d.digits
  let zeros (n : Int) : List Char := List.replicate n.toNat '0'
  let size : Int := ds.length
  let point := size + d.exponent
  if size ≤ point && point ≤ 16 then String.ofList (ds ++ zeros (point - size) ++ ['.', '0'])
  else if 0 < point && point ≤ 16 then
    String.ofList (ds.take point.toNat ++ '.' :: ds.drop point.toNat)
  else if -5 < point && point ≤ 0 then String.ofList ('0' :: '.' :: zeros (-point) ++ ds)
  else
    let mantissa := if ds.length = 1 then ds else ds.take 1 ++ '.' :: ds.drop 1
    String.ofList mantissa ++ (if point ≤ 0 then "e" else "e+") ++ toString (point - 1)

end Decimal

/-- The text of a magnitude. -/
def Binary64.text (m : Binary64) : String :=
  if m = zero then "0.0" else (Decimal.shortest m).text

end CaptureFilter.Number
